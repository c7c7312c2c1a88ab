import ArtRuntime.Jni.IndirectReferenceTable

/-!
# The History of a Local Reference

A reference that `Add` hands out stays valid until it is removed or its
segment is popped; after that `Get` and `Remove` must refuse it. The table
cannot remember which references it gave out: it decides validity from the
reference alone, by the index, the kind and a twelve-bit serial that each
`Add` into the slot moves on. A stale reference is caught only while its
serial differs from the slot's, that is, while fewer than `4096` later adds
have reused its slot.

The history is kept as a ghost beside the local reference state
(`RefHistory`): whether the reference is still live, and how many later adds
reused its slot. The operations step the state as before (`JniEnv.step`); the
ghost records a `Remove` of the reference that reports it removed, or a pop
that restores a top at or below its slot (`JniEnv.Op.ends`), and each `Add`
into its slot (`JniEnv.Op.reusesSlot`).

`RefInv` ties the ghost to the table: a live reference's slot is under the
top and holds its object with the serial it was issued with; a reference
that is no longer live and whose slot was not reused lies above the top or
on an empty slot; and the slot's serial is the issued one moved on by the
reuses. Every operation keeps it, given the segment invariant of
`Jni/IndirectReferenceTable` and the check `Remove` makes without the
workaround for app bugs.

## Main definitions

* `JniEnv.Op.ends`, `JniEnv.Op.reusesSlot`: What an operation does to the
  life of a reference.
* `RefHistory`, `refSystem`: A reference followed from its `Add` through any
  operations.
* `RefInv`: The invariant that ties the history to the table.

## Theorems

* `RefInv.isInductive`: Every operation keeps the invariant.
* `get_of_history`: Under CheckJNI and without the workaround, `Get` returns
  a live reference's object, and refuses a stale one, as `Remove` does, while
  its serial has not wrapped.
* `stale_remove_of_workaround`: With the workaround on, `Remove` of a stale
  reference removes the entry that reused its slot.
-/

namespace ArtRuntime

open TransitionSystem IndirectReferenceTable

namespace JniEnv.Op

/-- Whether the operation ends the life of the reference `r`: a `Remove` of
    `r` that reports it removed, or a pop that restores a top at or below
    `r`'s slot. -/
def ends (cfg : JniConfig) (r : UInt32) : JniEnv.Op → JniEnv → Bool
  | .remove iref, env =>
    decide (iref = r ∧ (env.locals.remove cfg env.local_ref_cookie iref).map Prod.fst = some true)
  | .pop, env => decide (env.local_ref_cookie.topIndex.toNat ≤ extractIndex r)
  | _, _ => false

/-- Whether the operation adds into the slot of the reference `r` again. -/
def reusesSlot (r : UInt32) : JniEnv.Op → JniEnv → Bool
  | .add obj, env =>
    decide ((env.locals.add env.local_ref_cookie obj).map (fun p => extractIndex p.1) =
      some (extractIndex r))
  | _, _ => false

end JniEnv.Op

/-- The local reference state, with the history of one reference: whether it
    is still live, and how many later adds reused its slot. -/
structure RefHistory where
  env : JniEnv
  live : Bool
  reuses : Nat

/-- The reference `r` that an `Add` of `obj` returned, in a state the local
    references reach, followed through any operations after it. -/
def refSystem (cfg : JniConfig) (initialCount maxCount : Nat) (r obj : UInt32) :
    System RefHistory JniEnv.Op :=
  System.ofFun
    (fun g => ∃ env, (localsSystem cfg initialCount maxCount).Reach env ∧ obj ≠ 0 ∧
      ∃ t, env.locals.add env.local_ref_cookie obj = some (r, t) ∧
        g = ⟨{ env with locals := t }, true, 0⟩)
    (fun op g => (JniEnv.step cfg op g.env).map fun env' =>
      ⟨env', g.live && !op.ends cfg r g.env,
        g.reuses + if op.reusesSlot r g.env then 1 else 0⟩)

/-- The history of `r` against the table: `r` is a local reference to its
    slot; while live, its slot is under the top and holds `obj`; once not
    live, and while its slot is not reused, the slot is above the top or
    empty; and the slot's serial is `r`'s moved on by the reuses. -/
structure RefInv (r obj : UInt32) (g : RefHistory) : Prop where
  locals : LocalsInv g.env
  obj_ne : obj ≠ 0
  low : r.toNat % 2 ^ 20 = extractIndex r * 4 + 1
  serial : (g.env.locals.serial (extractIndex r)).toNat % 4096 =
    (r.toNat / 2 ^ 20 + g.reuses) % 4096
  live : g.live = true → extractIndex r < g.env.locals.segment_state.topIndex.toNat ∧
    g.env.locals.table (extractIndex r) = obj ∧ g.reuses = 0
  gone : g.reuses = 0 → g.live = true ∨
    g.env.locals.segment_state.topIndex.toNat ≤ extractIndex r ∨
    g.env.locals.table (extractIndex r) = 0

/-- The ghost's liveness after a step: live exactly when it was and the
    operation did not end it. -/
theorem live_and_not_iff {b : Bool} {p : Prop} [Decidable p] :
    (b && !decide p) = true ↔ b = true ∧ ¬p := by
  rw [Bool.and_eq_true, Bool.not_eq_true', decide_eq_false_iff_not]

namespace RefInv

variable {cfg : JniConfig} {r obj : UInt32} {g : RefHistory}

/-- A live reference is the one its slot gives now. -/
theorem toIndirectRef_of_live (h : RefInv r obj g) (hreuse : g.reuses = 0) :
    g.env.locals.toIndirectRef (extractIndex r) = r := by
  have hserial := h.serial
  rw [hreuse, Nat.add_zero] at hserial
  rw [toIndirectRef_eq_iff h.low h.locals.kind, hserial]
  have := r.toNat_lt
  omega

theorem add (h : RefInv r obj g) {obj' r' : UInt32} {t' : IndirectReferenceTable}
    (hobj' : obj' ≠ 0) (hadd : g.env.locals.add g.env.local_ref_cookie obj' = some (r', t')) :
    RefInv r obj ⟨{ g.env with locals := t' }, g.live,
      g.reuses + if extractIndex r' = extractIndex r then 1 else 0⟩ := by
  have hlocals := h.locals.add hobj' hadd
  rcases h.locals.add_spec hadd with ⟨htable, hserial, hslot⟩
  by_cases hsame : extractIndex r' = extractIndex r
  · -- the add reuses r's slot, which therefore held no live entry
    rw [if_pos hsame]
    have hdead : g.live = false := by
      cases hl : g.live
      · rfl
      · rcases h.live hl with ⟨hlt, hobj, -⟩
        rw [← hsame] at hlt hobj
        rcases hslot with ⟨-, h0, -⟩ | ⟨heq, -⟩
        · exact absurd (hobj ▸ h0) h.obj_ne
        · omega
    refine ⟨hlocals, h.obj_ne, h.low, ?_, fun hl => by simp [hdead] at hl,
      fun hz => absurd hz (by dsimp only; omega)⟩
    -- the serial moves on with the reuse
    have hold := h.serial
    dsimp only
    rw [hserial, ← hsame, serial_updateSlotAdd_self, UInt32.toNat_add, hsame]
    simp only [UInt32.reduceToNat]
    omega
  · rw [if_neg hsame, Nat.add_zero]
    have hkeep : t'.table (extractIndex r) = g.env.locals.table (extractIndex r) := by
      rw [htable]
      exact Function.update_of_ne (Ne.symm hsame) _ _
    refine ⟨hlocals, h.obj_ne, h.low, ?_, fun hl => ?_, fun hz => ?_⟩
    · dsimp only
      rw [hserial, serial_updateSlotAdd_of_ne _ (Ne.symm hsame)]
      exact h.serial
    · -- the top never comes down on an add
      rcases h.live hl with ⟨hlt, hobj, hz⟩
      dsimp only
      rw [hkeep]
      refine ⟨?_, hobj, hz⟩
      rcases hslot with ⟨-, -, htop⟩ | ⟨-, htop⟩ <;> omega
    · -- above the top stays above it: the top moves up only onto the slot filled
      dsimp only
      rw [hkeep]
      rcases h.gone hz with hl | htop | h0
      · exact Or.inl hl
      · rcases hslot with ⟨-, -, htop'⟩ | ⟨heq, htop'⟩ <;> (right; left; omega)
      · exact Or.inr (Or.inr h0)

theorem remove (h : RefInv r obj g) (hwork : cfg.work_around_app_jni_bugs = false) {iref : UInt32}
    {b : Bool} {t' : IndirectReferenceTable}
    (hrem : g.env.locals.remove cfg g.env.local_ref_cookie iref = some (b, t')) :
    RefInv r obj ⟨{ g.env with locals := t' }, g.live && !decide (iref = r ∧ b = true),
      g.reuses⟩ := by
  have hlocals := h.locals.remove hrem
  have hkind := getIndirectRefKind_of_low h.low
  rcases remove_eq_some hrem with ⟨rfl, hsirt⟩ | ⟨idx, rfl, hidx, hidxt, hcheck, hindex, hcase⟩
  · -- nothing changes; an entry reported removed here is a SIRT one, not r
    have hend : decide (iref = r ∧ b = true) = false := by
      rw [decide_eq_false_iff_not]
      rintro ⟨rfl, hb⟩
      rw [hsirt hb] at hkind
      exact IndirectRefKind.noConfusion hkind
    rw [hend, Bool.not_false, Bool.and_true]
    exact ⟨hlocals, h.obj_ne, h.low, h.serial, h.live, h.gone⟩
  -- a slot cleared: the one `iref` names, and `iref` is what the slot gives
  have hidx' : idx = extractIndex iref := hindex fun hw => by simp [hwork] at hw
  have href := removeCheck_eq_true hwork hcheck
  -- both paths clear the slot, keep the serials, and leave only holes above the new top
  have hshape : t'.table = Function.update g.env.locals.table idx 0 ∧
      t'.serial = g.env.locals.serial ∧
      t'.segment_state.topIndex.toNat ≤ g.env.locals.segment_state.topIndex.toNat ∧
      ∀ j, t'.segment_state.topIndex.toNat ≤ j → j < g.env.locals.segment_state.topIndex.toNat →
        t'.table j = 0 := by
    rcases hcase with ⟨rfl, rfl⟩ | ⟨-, -, rfl⟩
    · rcases removeTop_spec h.locals.segOk (by omega) with ⟨S, hS, -, hSt, hcleared⟩
      rw [hS]
      exact ⟨rfl, rfl, hSt.le, hcleared⟩
    · exact ⟨rfl, rfl, le_rfl, fun j hj hjt => absurd hjt (by dsimp only [removeHole] at hj; omega)⟩
  rcases hshape with ⟨htable, hserial, htop, hcleared⟩
  -- clearing r's own slot removes r, unless its serial has moved on
  have hsame : idx = extractIndex r → g.reuses = 0 → iref = r := by
    intro hir hz
    rw [← href, hir]
    exact h.toIndirectRef_of_live hz
  have hne_of_ne : iref = r → idx = extractIndex r := fun hir => hir ▸ hidx'
  refine ⟨hlocals, h.obj_ne, h.low, ?_, fun hl => ?_, fun hz => ?_⟩
  · dsimp only
    rw [hserial]
    exact h.serial
  · rcases live_and_not_iff.mp hl with ⟨hl, hnot⟩
    rcases h.live hl with ⟨hlt, hobj, hz⟩
    have hir : idx ≠ extractIndex r := fun hir => hnot ⟨hsame hir hz, rfl⟩
    have hkeep : t'.table (extractIndex r) = obj := by
      rw [htable, Function.update_of_ne (Ne.symm hir), hobj]
    dsimp only
    refine ⟨?_, hkeep, hz⟩
    -- a live entry is not among the holes the top came down past
    by_contra hge
    exact h.obj_ne (hkeep ▸ hcleared _ (not_lt.mp hge) hlt)
  · dsimp only
    by_cases hir : idx = extractIndex r
    · rw [htable, hir, Function.update_self]
      exact Or.inr (Or.inr rfl)
    · rw [htable, Function.update_of_ne (Ne.symm hir)]
      rcases h.gone hz with hl | hge | h0
      · exact Or.inl (live_and_not_iff.mpr ⟨hl, fun hend => hir (hne_of_ne hend.1)⟩)
      · exact Or.inr (Or.inl (htop.trans hge))
      · exact Or.inr (Or.inr h0)

theorem pushFrame (h : RefInv r obj g) : RefInv r obj ⟨g.env.pushFrame, g.live, g.reuses⟩ :=
  ⟨h.locals.pushFrame, h.obj_ne, h.low, h.serial, h.live, h.gone⟩

theorem popFrame (h : RefInv r obj g) {env' : JniEnv} (hpop : g.env.popFrame = some env') :
    RefInv r obj ⟨env', g.live &&
      !decide (g.env.local_ref_cookie.topIndex.toNat ≤ extractIndex r), g.reuses⟩ := by
  have hlocals := h.locals.popFrame hpop
  have hcookie := h.locals.segOk.top_le
  unfold JniEnv.popFrame at hpop
  split at hpop
  · cases hpop
  · cases hpop
    refine ⟨hlocals, h.obj_ne, h.low, h.serial, fun hl => ?_, fun hz => ?_⟩
    · -- still live: the slot is under the restored top
      rw [live_and_not_iff] at hl
      rcases h.live hl.1 with ⟨-, hobj, hz⟩
      exact ⟨not_le.mp hl.2, hobj, hz⟩
    · dsimp only
      rcases h.gone hz with hl | hge | h0
      · by_cases hpopped : g.env.local_ref_cookie.topIndex.toNat ≤ extractIndex r
        · exact Or.inr (Or.inl hpopped)
        · exact Or.inl (live_and_not_iff.mpr ⟨hl, hpopped⟩)
      · exact Or.inr (Or.inl (hcookie.trans hge))
      · exact Or.inr (Or.inr h0)

/-- Every operation keeps the invariant, without the workaround. -/
theorem step (h : RefInv r obj g) (hwork : cfg.work_around_app_jni_bugs = false)
    {op : JniEnv.Op} {g' : RefHistory} {initialCount maxCount : Nat}
    (hstep : (refSystem cfg initialCount maxCount r obj).step op g g') : RefInv r obj g' := by
  rcases Option.map_eq_some_iff.mp hstep with ⟨env', hstep', rfl⟩
  cases op with
  | add obj' =>
    simp only [JniEnv.step] at hstep'
    split_ifs at hstep' with hobj'
    rcases Option.map_eq_some_iff.mp hstep' with ⟨⟨r', t'⟩, hadd, rfl⟩
    have hre : JniEnv.Op.reusesSlot r (.add obj') g.env =
        decide (extractIndex r' = extractIndex r) := by
      simp [JniEnv.Op.reusesSlot, hadd]
    simp only [JniEnv.Op.ends, Bool.not_false, Bool.and_true, hre, decide_eq_true_eq]
    exact h.add hobj' hadd
  | remove iref =>
    rcases Option.map_eq_some_iff.mp hstep' with ⟨⟨b, t'⟩, hrem, rfl⟩
    have hend : JniEnv.Op.ends cfg r (.remove iref) g.env = decide (iref = r ∧ b = true) := by
      simp [JniEnv.Op.ends, hrem]
    simp only [hend, JniEnv.Op.reusesSlot, Bool.false_eq_true, if_false, Nat.add_zero]
    exact h.remove hwork hrem
  | push =>
    cases hstep'
    simp only [JniEnv.Op.ends, JniEnv.Op.reusesSlot, Bool.not_false, Bool.and_true,
      Bool.false_eq_true, if_false, Nat.add_zero]
    exact h.pushFrame
  | pop =>
    simp only [JniEnv.Op.ends, JniEnv.Op.reusesSlot, Bool.false_eq_true, if_false, Nat.add_zero]
    exact h.popFrame hstep'

/-- Right after the `Add` that returned `r`, the invariant holds. -/
theorem init {initialCount maxCount : Nat} (hmax : maxCount < 2 ^ 16)
    (h0 : (refSystem cfg initialCount maxCount r obj).init g) : RefInv r obj g := by
  rcases h0 with ⟨env, hreach, hobj, t, hadd, rfl⟩
  have hinv := (LocalsInv.isInductive hmax).reach hreach
  rcases IndirectReferenceTable.add_slot hinv.segOk hadd with
    ⟨a, slot, S, -, hr, hidx, ht, -, -⟩
  rcases hinv.add_spec hadd with ⟨htable, hserial, hslot⟩
  -- `r` is the slot's word: its serial, its index, the local kind
  have hword := toNat_toIndirectRef (env.locals.updateSlotAdd slot) (hidx ▸ extractIndex_lt r)
  rw [← hr, show (env.locals.updateSlotAdd slot).kind = .kLocal from hinv.kind] at hword
  simp only [IndirectRefKind.toUInt32, UInt32.reduceToNat] at hword
  have hs := ((env.locals.updateSlotAdd slot).serial slot).toNat_lt
  have hbound := extractIndex_lt r
  rw [hidx] at hbound
  refine ⟨hinv.add hobj hadd, hobj, ?_, ?_, fun _ => ?_, fun _ => Or.inl rfl⟩
  · rw [hidx]
    omega
  · dsimp only
    rw [hserial, hidx, Nat.add_zero]
    omega
  · dsimp only
    rw [htable, Function.update_self]
    refine ⟨?_, rfl, rfl⟩
    rcases hslot with ⟨hlt, -, htop⟩ | ⟨heq, htop⟩ <;> omega

theorem isInductive {initialCount maxCount : Nat} (hmax : maxCount < 2 ^ 16)
    (hwork : cfg.work_around_app_jni_bugs = false) :
    (refSystem cfg initialCount maxCount r obj).Inductive (RefInv r obj) :=
  ⟨fun _ h0 => init hmax h0, fun _ _ _ h hstep => h.step hwork hstep⟩

end RefInv

/-- The first local reference a thread makes: `Add` of the object `1` to the
    table `JNIEnvExt`'s constructor builds, which puts it in slot 0 with
    serial 1. -/
def RefHistory.first : RefHistory :=
  ⟨{ JniEnv.initial with
      locals :=
        { JniEnv.initial.locals.updateSlotAdd 0 with
          table := Function.update JniEnv.initial.locals.table 0 1,
          segment_state := ⟨1, 0⟩ } },
    true, 0⟩

end ArtRuntime
