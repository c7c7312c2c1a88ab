import Mathlib.Algebra.Order.BigOperators.Group.Finset
import ArtRuntime.Core.Reach
import ArtRuntime.Core.Count

/-!
# Concurrent AtomicPushBack

`StructuredAtomicStack::AtomicPushBack` reserves a slot of the mark or
allocation stack by a compare-and-swap on `back_index_`, and then writes the
value into it:

    do {
      index = back_index_;
      if (static_cast<size_t>(index) >= capacity_) return false;  // overflow
    } while (android_atomic_cas(index, index + 1, &back_index_) != 0);
    SetEntryIndex(index, value);
    return true;

Here any number of calls run at once, each with a value of its own. Each read
of `back_index_`, each compare-and-swap and each write of an entry is one
atomic step; the steps of the calls interleave in every order.

`back_index_` is an `int` and `capacity_` a `size_t`, 32 bits wide on the
32-bit target. The check reads the index as a `size_t` and `index + 1` is an
`int` sum, so the two disagree once `capacity_` reaches `2 ^ 31`: a call that
reads `back_index_ = 2 ^ 31 - 1` passes the check, its swap wraps
`back_index_` to `-2 ^ 31`, which as a `size_t` is `2 ^ 31` and passes the
check again, and the next call would reserve and write the entry at index
`-2 ^ 31`, outside the stack. Such a stack holds `2 ^ 31` entries or more,
which the 32-bit target cannot allocate, so the model keeps to the stacks it
can. A negative `back_index_` is likewise a `size_t` of `2 ^ 31` or more,
and every call on it returns false.

From a `back_index_` between `0` and `capacity_`, and a `capacity_` below
`2 ^ 31` (`StackData.Bounded`), the swap on the value read is what keeps two
calls from one index: a swap succeeds only on the index it read, so the
successful swaps move `back_index_` up by one each, and each reserves the
index it moved past (`PushInv`). A failed swap is paid for by a swap of
another call that moved `back_index_` past the index read, so every call
ends (`pushPotential`).

## Main definitions

* `StackData`: The fields of the stack AtomicPushBack reads and writes.
* `PushPc`, `PushState`: Where each call is, and the stack.
* `atomicPushBackNext`, `pushSystem`: One atomic step of a call, and the
  calls started together on a stack.
* `StackData.Bounded`: The stacks the push keeps its promise on.
* `PushInv`: What every interleaving keeps.
* `pushPotential`: What every step lowers.
* `PushOutcome`: What the calls promise once all have returned.

## Theorems

* `atomicPushBackNext_cases`: The five things a step can do.
* `pushInv_reach`: Every reachable state keeps the invariant.
* `pushPotential_step_lt`: Every step lowers the potential.
* `atomicPushBack_concurrent`: Every run is short, no call is stuck,
  `back_index_` never passes `capacity_`, and once all calls have returned
  each that returned true wrote its value at an index of its own between the
  initial `back_index_` and `capacity_`, and `back_index_` has moved up by
  their number.
-/

namespace ArtRuntime

namespace Gc

open TransitionSystem Count

/-! ### Int32 arithmetic -/

/-- An `int` sum with one that does not reach the top does not wrap. -/
theorem int32_toInt_add_one {i : Int32} (h : i.toInt < 2 ^ 31 - 1) : (i + 1).toInt = i.toInt + 1 := by
  rw [Int32.toInt_add, Int32.toInt_one]
  have := i.le_toInt
  exact Int.bmod_eq_of_le (by omega) (by omega)

/-- `static_cast<size_t>` keeps a non-negative `int`. -/
theorem int32_toNat_toUInt32 {i : Int32} (h : 0 ≤ i.toInt) : (i.toUInt32.toNat : Int) = i.toInt := by
  rw [Int32.toNat_toUInt32_of_le (Int32.le_iff_toInt_le.mpr h), ← Int32.toNat_toInt]
  omega

/-! ### The model -/

/-- The fields of the stack AtomicPushBack reads and writes: `back_index_`,
    `capacity_`, and the entries `begin_[index]` at the `int32_t` indices
    SetEntryIndex takes. -/
structure StackData (α : Type) where
  backIndex : Int32
  capacity : UInt32
  entries : Int32 → α

/-- Where a call of AtomicPushBack is, with its local `index`. -/
inductive PushPc
  /-- At the top of the loop, about to read `back_index_`. -/
  | read
  /-- About to swap `index + 1` in for `index`. -/
  | cas (index : Int32)
  /-- The swap succeeded: about to SetEntryIndex(index, value). -/
  | set (index : Int32)
  /-- Returned `pushed`, with `index` as it last read it. -/
  | done (index : Int32) (pushed : Bool)
  deriving DecidableEq

/-- The index a call has reserved: its swap has succeeded. -/
def PushPc.reserved : PushPc → Option Int32
  | .set index => some index
  | .done index true => some index
  | _ => none

/-- The call has returned true. -/
def PushPc.returnedTrue : PushPc → Bool
  | .done _ true => true
  | _ => false

/-- The stack and where each call is. -/
structure PushState (τ α : Type) where
  data : StackData α
  pc : τ → PushPc

variable {τ α : Type}

/-- A call moves on, the stack unchanged. -/
def PushState.setPc [DecidableEq τ] (s : PushState τ α) (t : τ) (p : PushPc) : PushState τ α :=
  { s with pc := Function.update s.pc t p }

/-- One atomic step of call `t`, pushing `value t`: the read of
    `back_index_` with the overflow check, the android_atomic_cas, which
    swaps in `index + 1` when `back_index_` is still `index`, or the write of
    the entry. A call that has returned takes no step. -/
def atomicPushBackNext [DecidableEq τ] (value : τ → α) (s : PushState τ α) (t : τ) :
    Option (PushState τ α) :=
  match s.pc t with
  | .read =>
    let index := s.data.backIndex
    if index.toUInt32 ≥ s.data.capacity then some (s.setPc t (.done index false))
    else some (s.setPc t (.cas index))
  | .cas index =>
    if s.data.backIndex = index then
      some ⟨{ s.data with backIndex := index + 1 }, Function.update s.pc t (.set index)⟩
    else some (s.setPc t .read)
  | .set index =>
    some ⟨{ s.data with entries := Function.update s.data.entries index (value t) },
      Function.update s.pc t (.done index true)⟩
  | .done _ _ => none

/-- The calls have all just been entered on the stack `d₀`. -/
def PushState.IsInitial (d₀ : StackData α) (s : PushState τ α) : Prop :=
  s.data = d₀ ∧ ∀ t, s.pc t = .read

/-- Calls pushing `value`, all started on the stack `d₀`, their steps
    interleaved in every order. -/
def pushSystem [DecidableEq τ] (d₀ : StackData α) (value : τ → α) : System (PushState τ α) τ :=
  System.ofFun (PushState.IsInitial d₀) fun t s => atomicPushBackNext value s t

/-- The stacks the push keeps its promise on: `back_index_` not negative
    and at most `capacity_`, and `capacity_` below `2 ^ 31`, so that the
    check and the `int` sum agree. -/
structure StackData.Bounded (d : StackData α) : Prop where
  back_nonneg : 0 ≤ d.backIndex.toInt
  back_le : d.backIndex.toInt ≤ d.capacity.toNat
  capacity_lt : d.capacity.toNat < 2 ^ 31

section Step

variable [DecidableEq τ] {value : τ → α}

@[simp] theorem PushState.setPc_data (s : PushState τ α) (t : τ) (p : PushPc) :
    (s.setPc t p).data = s.data := rfl

theorem PushState.setPc_pc (s : PushState τ α) (t : τ) (p : PushPc) (u : τ) :
    (s.setPc t p).pc u = if u = t then p else s.pc u :=
  Function.update_apply _ _ _ _

/-- The five things a step of a call can do: find the stack full, read an
    index below the capacity, swap in the next index, fail to swap and go
    round, or write the entry. -/
theorem atomicPushBackNext_cases {s s' : PushState τ α} {t : τ}
    (h : atomicPushBackNext value s t = some s') :
    (s.pc t = .read ∧ s.data.capacity ≤ s.data.backIndex.toUInt32 ∧
        s' = s.setPc t (.done s.data.backIndex false)) ∨
      (s.pc t = .read ∧ s.data.backIndex.toUInt32 < s.data.capacity ∧
        s' = s.setPc t (.cas s.data.backIndex)) ∨
      (∃ index, s.pc t = .cas index ∧ s.data.backIndex = index ∧
        s' = ⟨{ s.data with backIndex := index + 1 }, Function.update s.pc t (.set index)⟩) ∨
      (∃ index, s.pc t = .cas index ∧ s.data.backIndex ≠ index ∧ s' = s.setPc t .read) ∨
      (∃ index, s.pc t = .set index ∧
        s' = ⟨{ s.data with entries := Function.update s.data.entries index (value t) },
          Function.update s.pc t (.done index true)⟩) := by
  unfold atomicPushBackNext at h
  split at h
  · rename_i hpc
    dsimp only at h
    split at h
    · exact .inl ⟨hpc, ‹_›, (Option.some.inj h).symm⟩
    · exact .inr (.inl ⟨hpc, UInt32.not_le.mp ‹_›, (Option.some.inj h).symm⟩)
  · rename_i index hpc
    split at h
    · exact .inr (.inr (.inl ⟨index, hpc, ‹_›, (Option.some.inj h).symm⟩))
    · exact .inr (.inr (.inr (.inl ⟨index, hpc, ‹_›, (Option.some.inj h).symm⟩)))
  · rename_i index hpc
    exact .inr (.inr (.inr (.inr ⟨index, hpc, (Option.some.inj h).symm⟩)))
  · cases h

/-- A call has a step until it has returned. -/
theorem atomicPushBackNext_eq_none_iff {s : PushState τ α} {t : τ} :
    atomicPushBackNext value s t = none ↔ ∃ index pushed, s.pc t = .done index pushed := by
  unfold atomicPushBackNext
  cases hpc : s.pc t with
  | read => dsimp only; split <;> simp
  | cas index => dsimp only; split <;> simp
  | set index => simp
  | done index pushed => simp

end Step

section Invariant

variable [DecidableEq τ] [Fintype τ] {d₀ : StackData α} {value : τ → α}

/-- What every interleaving keeps, against the stack `d₀` the calls started
    on: the capacity stays, and `back_index_` lies between its start and the
    capacity; an index about to be swapped was read below the capacity and
    not past `back_index_`; the reserved indices are those from the start of
    `back_index_` to where it is now, each held by one call; a call that
    returned false read the capacity or more; and an entry holds the value of
    the call that wrote it, or else what it held at the start. -/
structure PushInv (d₀ : StackData α) (value : τ → α) (s : PushState τ α) : Prop where
  capacity_eq : s.data.capacity = d₀.capacity
  back_ge : d₀.backIndex.toInt ≤ s.data.backIndex.toInt
  back_le : s.data.backIndex.toInt ≤ d₀.capacity.toNat
  cas_range : ∀ t index, s.pc t = .cas index → d₀.backIndex.toInt ≤ index.toInt ∧
    index.toInt ≤ s.data.backIndex.toInt ∧ index.toInt < d₀.capacity.toNat
  reserved_range : ∀ t index, (s.pc t).reserved = some index →
    d₀.backIndex.toInt ≤ index.toInt ∧ index.toInt < s.data.backIndex.toInt
  reserved_unique : ∀ t u index, (s.pc t).reserved = some index → (s.pc u).reserved = some index →
    t = u
  reserved_count : (countWhere (fun p : PushPc => p.reserved.isSome) s.pc : Int) =
    s.data.backIndex.toInt - d₀.backIndex.toInt
  full_of_false : ∀ t index, s.pc t = .done index false → (d₀.capacity.toNat : Int) ≤ index.toInt
  entries_pushed : ∀ t index, s.pc t = .done index true → s.data.entries index = value t
  entries_other : ∀ index, (∀ t, s.pc t ≠ .done index true) → s.data.entries index = d₀.entries index

/-- A step that moves a call between places where it holds no index changes
    no reservation and no entry. -/
theorem PushInv.setPc {s : PushState τ α} (hinv : PushInv d₀ value s) {t : τ} {p : PushPc}
    (hold : (s.pc t).reserved = none) (hnew : p.reserved = none)
    (hcas : ∀ index, p = .cas index → d₀.backIndex.toInt ≤ index.toInt ∧
      index.toInt ≤ s.data.backIndex.toInt ∧ index.toInt < d₀.capacity.toNat)
    (hfalse : ∀ index, p = .done index false → (d₀.capacity.toNat : Int) ≤ index.toInt) :
    PushInv d₀ value (s.setPc t p) := by
  have hpc := PushState.setPc_pc s t p
  refine ⟨hinv.capacity_eq, hinv.back_ge, hinv.back_le, fun u index hu => ?_, fun u index hu => ?_,
    fun u v index hu hv => ?_, ?_, fun u index hu => ?_, fun u index hu => ?_,
    fun index hno => ?_⟩
  · rw [hpc] at hu
    split at hu
    · exact hcas index hu
    · exact hinv.cas_range u index hu
  · rw [hpc] at hu
    split at hu
    · rw [hnew] at hu
      cases hu
    · exact hinv.reserved_range u index hu
  · rw [hpc] at hu hv
    split at hu
    · rw [hnew] at hu
      cases hu
    split at hv
    · rw [hnew] at hv
      cases hv
    exact hinv.reserved_unique u v index hu hv
  · -- t neither gains nor loses a reservation
    have hcount : countWhere (fun p : PushPc => p.reserved.isSome) (Function.update s.pc t p) =
        countWhere (fun p : PushPc => p.reserved.isSome) s.pc :=
      countWhere_update_of_iff (by rw [hold, hnew])
    rw [PushState.setPc_data, ← hinv.reserved_count, PushState.setPc, hcount]
  · rw [hpc] at hu
    split at hu
    · exact hfalse index hu
    · exact hinv.full_of_false u index hu
  · rw [hpc] at hu
    split at hu
    · rw [hu] at hnew
      cases hnew
    · exact hinv.entries_pushed u index hu
  · refine hinv.entries_other index fun u hu => ?_
    by_cases hut : u = t
    · rw [← hut, hu] at hold
      cases hold
    · exact hno u (by rw [hpc, if_neg hut]; exact hu)

/-- A successful swap reserves the index it read, the one `back_index_` was
    at, and moves `back_index_` past it without wrapping. -/
theorem PushInv.swap (hd : d₀.Bounded) {s : PushState τ α} (hinv : PushInv d₀ value s) {t : τ}
    {index : Int32} (hpc : s.pc t = .cas index) (hback : s.data.backIndex = index) :
    PushInv d₀ value ⟨{ s.data with backIndex := index + 1 }, Function.update s.pc t (.set index)⟩ := by
  obtain ⟨hlo, -, hlt⟩ := hinv.cas_range t index hpc
  have hnext : (index + 1).toInt = index.toInt + 1 :=
    int32_toInt_add_one (by have := hd.capacity_lt; omega)
  have hB : s.data.backIndex.toInt = index.toInt := by rw [hback]
  -- no other call holds the index read: the reserved ones lie below it
  have hfree : ∀ u, (s.pc u).reserved ≠ some index := fun u hu => by
    have := (hinv.reserved_range u index hu).2
    omega
  refine ⟨hinv.capacity_eq, by dsimp only; omega, by dsimp only; omega, fun u j hu => ?_,
    fun u j hu => ?_, fun u v j hu hv => ?_, ?_, fun u j hu => ?_, fun u j hu => ?_,
    fun j hno => ?_⟩
  · dsimp only at hu ⊢
    rw [Function.update_apply] at hu
    split at hu
    · cases hu
    · have := hinv.cas_range u j hu
      omega
  · dsimp only at hu ⊢
    rw [Function.update_apply] at hu
    split at hu
    · cases hu
      omega
    · have := hinv.reserved_range u j hu
      omega
  · dsimp only at hu hv
    rw [Function.update_apply] at hu hv
    split at hu <;> split at hv
    · rename_i hut hvt
      rw [hut, hvt]
    · cases hu
      exact absurd hv (hfree v)
    · cases hv
      exact absurd hu (hfree u)
    · exact hinv.reserved_unique u v j hu hv
  · -- t gains its reservation, and `back_index_` moves up by one
    have hcount := countWhere_update_of_enter (p := fun p : PushPc => p.reserved.isSome)
      (f := s.pc) (t := t) (a := .set index) (by rw [hpc]; exact Bool.false_ne_true) rfl
    have hold := hinv.reserved_count
    dsimp only
    rw [hcount]
    push_cast
    omega
  · dsimp only at hu ⊢
    rw [Function.update_apply] at hu
    split at hu
    · cases hu
    · exact hinv.full_of_false u j hu
  · dsimp only at hu ⊢
    rw [Function.update_apply] at hu
    split at hu
    · cases hu
    · exact hinv.entries_pushed u j hu
  · dsimp only at hno ⊢
    refine hinv.entries_other j fun u hu => ?_
    by_cases hut : u = t
    · rw [hut, hpc] at hu
      cases hu
    · exact hno u (by rw [Function.update_of_ne hut]; exact hu)

/-- Writing the entry keeps every reservation and puts the call's value at
    its own index, which no other call holds. -/
theorem PushInv.write {s : PushState τ α} (hinv : PushInv d₀ value s) {t : τ} {index : Int32}
    (hpc : s.pc t = .set index) :
    PushInv d₀ value ⟨{ s.data with entries := Function.update s.data.entries index (value t) },
      Function.update s.pc t (.done index true)⟩ := by
  have hres : ∀ u, (Function.update s.pc t (.done index true) u).reserved = (s.pc u).reserved := by
    intro u
    rw [Function.update_apply]
    split
    · rename_i hut
      rw [hut, hpc]
      rfl
    · rfl
  -- an index another call returned true with is not `index`
  have hother : ∀ u j, u ≠ t → s.pc u = .done j true → j ≠ index := by
    intro u j hut hu hj
    have hu' : (s.pc u).reserved = some index := by rw [hu, hj]; rfl
    exact hut (hinv.reserved_unique u t index hu' (by rw [hpc]; rfl))
  refine ⟨hinv.capacity_eq, hinv.back_ge, hinv.back_le, fun u j hu => ?_,
    fun u j hu => hinv.reserved_range u j (by rw [← hres]; exact hu),
    fun u v j hu hv => hinv.reserved_unique u v j (by rw [← hres]; exact hu) (by rw [← hres]; exact hv),
    ?_, fun u j hu => ?_, fun u j hu => ?_, fun j hno => ?_⟩
  · dsimp only at hu ⊢
    rw [Function.update_apply] at hu
    split at hu
    · cases hu
    · exact hinv.cas_range u j hu
  · have hcount : countWhere (fun p : PushPc => p.reserved.isSome)
        (Function.update s.pc t (.done index true)) =
        countWhere (fun p : PushPc => p.reserved.isSome) s.pc :=
      countWhere_update_of_iff (by rw [hpc]; rfl)
    rw [hcount]
    exact hinv.reserved_count
  · dsimp only at hu ⊢
    rw [Function.update_apply] at hu
    split at hu
    · cases hu
    · exact hinv.full_of_false u j hu
  · dsimp only at hu ⊢
    rw [Function.update_apply] at hu
    split at hu
    · rename_i hut
      cases hu
      rw [hut]
      exact Function.update_self _ _ _
    · rename_i hut
      rw [Function.update_of_ne (hother u j hut hu)]
      exact hinv.entries_pushed u j hu
  · -- `index` itself is now returned true with, so `j` is another index
    dsimp only at hno ⊢
    have hj : j ≠ index := fun hj => hno t (by rw [Function.update_self, hj])
    rw [Function.update_of_ne hj]
    refine hinv.entries_other j fun u hu => ?_
    by_cases hut : u = t
    · rw [hut, hpc] at hu
      cases hu
    · exact hno u (by rw [Function.update_of_ne hut]; exact hu)

/-- Every step keeps the invariant. -/
theorem PushInv.next (hd : d₀.Bounded) {s s' : PushState τ α} (hinv : PushInv d₀ value s) {t : τ}
    (h : atomicPushBackNext value s t = some s') : PushInv d₀ value s' := by
  have hB : 0 ≤ s.data.backIndex.toInt := le_trans hd.back_nonneg hinv.back_ge
  rcases atomicPushBackNext_cases h with ⟨hpc, hfull, rfl⟩ | ⟨hpc, hroom, rfl⟩ |
      ⟨index, hpc, hback, rfl⟩ | ⟨index, hpc, hback, rfl⟩ | ⟨index, hpc, rfl⟩
  · -- the check read `back_index_` as the capacity or more
    refine hinv.setPc (by rw [hpc]; rfl) rfl nofun fun index hidx => ?_
    cases hidx
    have hcast := int32_toNat_toUInt32 hB
    have hle := UInt32.le_iff_toNat_le.mp hfull
    rw [hinv.capacity_eq] at hle
    omega
  · -- the check read `back_index_` below the capacity
    refine hinv.setPc (by rw [hpc]; rfl) rfl (fun index hidx => ?_) nofun
    cases hidx
    have hcast := int32_toNat_toUInt32 hB
    have hlt := UInt32.lt_iff_toNat_lt.mp hroom
    rw [hinv.capacity_eq] at hlt
    exact ⟨hinv.back_ge, le_refl _, by omega⟩
  · exact hinv.swap hd hpc hback
  · exact hinv.setPc (by rw [hpc]; rfl) rfl nofun nofun
  · exact hinv.write hpc

/-- Every reachable state keeps the invariant. -/
theorem pushInv_reach (hd : d₀.Bounded) {s : PushState τ α} (hs : (pushSystem d₀ value).Reach s) :
    PushInv d₀ value s := by
  refine System.Inductive.reach ⟨?_, fun t s s' hinv h => hinv.next hd h⟩ hs
  rintro s ⟨rfl, hread⟩
  have hcount : countWhere (fun p : PushPc => p.reserved.isSome) s.pc = 0 := by
    unfold countWhere
    simp [hread, PushPc.reserved]
  refine ⟨rfl, le_refl _, hd.back_le, fun t _ ht => ?_, fun t _ ht => ?_, fun t _ _ ht => ?_,
    by rw [hcount]; omega, fun t _ ht => ?_, fun t _ ht => ?_, fun _ _ => rfl⟩ <;>
    rw [hread t] at ht <;> cases ht

end Invariant

section Termination

variable [DecidableEq τ] {d₀ : StackData α} {value : τ → α}

/-- What a call may still cost: a read to come twice the room left above
    `back_index_`, and three; a swap to come twice the room above the index
    it read, and two; a write to come one. -/
def pushCost (s : PushState τ α) (t : τ) : Nat :=
  match s.pc t with
  | .read => 2 * (s.data.capacity.toNat - s.data.backIndex.toInt.toNat) + 3
  | .cas index => 2 * (s.data.capacity.toNat - index.toInt.toNat) + 2
  | .set _ => 1
  | .done _ _ => 0

/-- What all calls may still cost. -/
def pushPotential [Fintype τ] (s : PushState τ α) : Nat :=
  ∑ t, pushCost s t

omit [DecidableEq τ] in
/-- A call that did not move costs no more once `back_index_` has gone up. -/
theorem pushCost_le {s s' : PushState τ α} {u : τ} (hpc : s'.pc u = s.pc u)
    (hcap : s'.data.capacity = s.data.capacity)
    (hback : s.data.backIndex.toInt ≤ s'.data.backIndex.toInt) : pushCost s' u ≤ pushCost s u := by
  unfold pushCost
  rw [hpc, hcap]
  split
  · omega
  · exact le_refl _
  · exact le_refl _
  · exact le_refl _

/-- Every step lowers the potential: the moving call's cost goes down, a
    failed swap's because another call's swap has moved `back_index_` past
    the index it read, and the others' costs do not go up. -/
theorem pushPotential_step_lt [Fintype τ] (hd : d₀.Bounded) {s s' : PushState τ α}
    (hinv : PushInv d₀ value s) {t : τ} (h : atomicPushBackNext value s t = some s') :
    pushPotential s' < pushPotential s := by
  -- the other calls stay where they are, and `back_index_` only goes up
  have hothers : ∀ u, u ≠ t → s'.pc u = s.pc u ∧ s'.data.capacity = s.data.capacity ∧
      s.data.backIndex.toInt ≤ s'.data.backIndex.toInt := by
    intro u hu
    rcases atomicPushBackNext_cases h with ⟨-, -, rfl⟩ | ⟨-, -, rfl⟩ | ⟨index, hpc, hback, rfl⟩ |
        ⟨-, -, -, rfl⟩ | ⟨-, -, rfl⟩
    · exact ⟨by rw [PushState.setPc_pc, if_neg hu], rfl, le_refl _⟩
    · exact ⟨by rw [PushState.setPc_pc, if_neg hu], rfl, le_refl _⟩
    · have hlt := (hinv.cas_range t index hpc).2.2
      have hnext : (index + 1).toInt = index.toInt + 1 :=
        int32_toInt_add_one (by have := hd.capacity_lt; omega)
      refine ⟨Function.update_of_ne hu _ _, rfl, ?_⟩
      dsimp only
      rw [hnext, hback]
      omega
    · exact ⟨by rw [PushState.setPc_pc, if_neg hu], rfl, le_refl _⟩
    · exact ⟨Function.update_of_ne hu _ _, rfl, le_refl _⟩
  -- the moving call's cost goes down
  have hself : pushCost s' t < pushCost s t := by
    rcases atomicPushBackNext_cases h with ⟨hpc, -, rfl⟩ | ⟨hpc, -, rfl⟩ | ⟨index, hpc, -, rfl⟩ |
        ⟨index, hpc, hback, rfl⟩ | ⟨index, hpc, rfl⟩
    · simp [pushCost, hpc, PushState.setPc_pc]
    · simp [pushCost, hpc, PushState.setPc_pc]
    · simp [pushCost, hpc]
    · -- the index read lies below `back_index_` now
      have ⟨hlo, hle, hlt⟩ := hinv.cas_range t index hpc
      have hne : index.toInt ≠ s.data.backIndex.toInt := fun he => hback (Int32.toInt_inj.mp he).symm
      have hcap := hinv.back_le
      have h0 := hd.back_nonneg
      rw [← hinv.capacity_eq] at hlt hcap
      simp only [pushCost, hpc, PushState.setPc_pc, if_pos, PushState.setPc_data]
      omega
    · simp [pushCost, hpc]
  refine Finset.sum_lt_sum (fun u _ => ?_) ⟨t, Finset.mem_univ t, hself⟩
  by_cases hu : u = t
  · exact hu ▸ hself.le
  · exact pushCost_le (hothers u hu).1 (hothers u hu).2.1 (hothers u hu).2.2

omit [DecidableEq τ] in
/-- At the start every call is about to read. -/
theorem pushPotential_init_le [Fintype τ] {s : PushState τ α} (hread : ∀ t, s.pc t = .read) :
    pushPotential s ≤
      Fintype.card τ * (2 * (s.data.capacity.toNat - s.data.backIndex.toInt.toNat) + 3) := by
  have hcall : ∀ t ∈ Finset.univ, pushCost s t ≤
      2 * (s.data.capacity.toNat - s.data.backIndex.toInt.toNat) + 3 := by
    intro t _
    simp only [pushCost, hread t, le_refl]
  calc pushPotential s
      ≤ Finset.univ.card • (2 * (s.data.capacity.toNat - s.data.backIndex.toInt.toNat) + 3) :=
        Finset.sum_le_card_nsmul Finset.univ _ _ hcall
    _ = Fintype.card τ * (2 * (s.data.capacity.toNat - s.data.backIndex.toInt.toNat) + 3) := by
        rw [Finset.card_univ, Nat.nsmul_eq_mul]

end Termination

section Outcome

variable [DecidableEq τ] {d₀ : StackData α} {value : τ → α}

/-- What the calls promise once all have returned, against the stack `d₀`
    they started on: `back_index_` has moved up by the number of calls that
    returned true and stays within the capacity; each of those calls has an
    index of its own between the initial `back_index_` and the capacity, and
    its value is written there; every other entry is as it was; and a call
    that returned false last read an index at or above the capacity. -/
structure PushOutcome [Fintype τ] (d₀ : StackData α) (value : τ → α) (s : PushState τ α) : Prop where
  back_eq : s.data.backIndex.toInt =
    d₀.backIndex.toInt + countWhere (fun p : PushPc => p.returnedTrue) s.pc
  back_le : s.data.backIndex.toInt ≤ d₀.capacity.toNat
  pushed_range : ∀ t index, s.pc t = .done index true →
    d₀.backIndex.toInt ≤ index.toInt ∧ index.toInt < d₀.capacity.toNat
  pushed_unique : ∀ t u index, s.pc t = .done index true → s.pc u = .done index true → t = u
  entries_pushed : ∀ t index, s.pc t = .done index true → s.data.entries index = value t
  entries_other : ∀ index, (∀ t, s.pc t ≠ .done index true) → s.data.entries index = d₀.entries index
  full_of_false : ∀ t index, s.pc t = .done index false → (d₀.capacity.toNat : Int) ≤ index.toInt

/-- Once a call has returned, it holds an index exactly when it returned
    true. -/
theorem PushPc.reserved_isSome_of_done {p : PushPc} (h : ∃ index pushed, p = .done index pushed) :
    p.reserved.isSome = p.returnedTrue := by
  obtain ⟨index, pushed, rfl⟩ := h
  cases pushed <;> rfl

omit [DecidableEq τ] in
/-- Once every call has returned, the invariant gives the outcome. -/
theorem PushInv.outcome [Fintype τ] {s : PushState τ α} (hinv : PushInv d₀ value s)
    (hdone : ∀ t, ∃ index pushed, s.pc t = .done index pushed) : PushOutcome d₀ value s := by
  have hreserved : ∀ t index, s.pc t = .done index true → (s.pc t).reserved = some index := by
    intro t index ht
    rw [ht]
    rfl
  -- every call has returned, so the reserved ones are those that returned true
  have hcount : countWhere (fun p : PushPc => p.reserved.isSome) s.pc =
      countWhere (fun p : PushPc => p.returnedTrue) s.pc := by
    unfold countWhere
    congr 1
    exact Finset.filter_congr fun t _ => by
      dsimp only
      rw [PushPc.reserved_isSome_of_done (hdone t)]
  refine ⟨?_, hinv.back_le, fun t index ht => ?_, fun t u index ht hu => ?_, hinv.entries_pushed,
    hinv.entries_other, hinv.full_of_false⟩
  · have := hinv.reserved_count
    rw [hcount] at this
    omega
  · have ⟨hlo, hlt⟩ := hinv.reserved_range t index (hreserved t index ht)
    exact ⟨hlo, lt_of_lt_of_le hlt hinv.back_le⟩
  · exact hinv.reserved_unique t u index (hreserved t index ht) (hreserved u index hu)

/-- AtomicPushBack under every interleaving, from a bounded stack: every run
    is at most `2 * (capacity_ - back_index_) + 3` steps per call long and
    ends only when every call has returned; `back_index_` never passes
    `capacity_`; and once all calls have returned, the stack and the returns
    are those `PushOutcome` states. -/
theorem atomicPushBack_concurrent [Fintype τ] (d₀ : StackData α) (value : τ → α) (hd : d₀.Bounded) :
    (∀ s₀ ls s, (pushSystem d₀ value).init s₀ → (pushSystem d₀ value).Run s₀ ls s →
      ls.length ≤ Fintype.card τ * (2 * (d₀.capacity.toNat - d₀.backIndex.toInt.toNat) + 3) ∧
        ((∀ t, atomicPushBackNext value s t = none) →
          ∀ t, ∃ index pushed, s.pc t = .done index pushed)) ∧
      (∀ s, (pushSystem d₀ value).Reach s → s.data.backIndex.toInt ≤ d₀.capacity.toNat) ∧
      ∀ s, (pushSystem d₀ value).Reach s → (∀ t, ∃ index pushed, s.pc t = .done index pushed) →
        PushOutcome d₀ value s := by
  refine ⟨fun s₀ ls s hinit hrun =>
      ⟨?_, fun hnone t => atomicPushBackNext_eq_none_iff.mp (hnone t)⟩,
    fun s hs => (pushInv_reach hd hs).back_le,
    fun s hs hdone => (pushInv_reach hd hs).outcome hdone⟩
  -- the potential bounds the run
  have hinv₀ : PushInv d₀ value s₀ := pushInv_reach hd (System.Reach.init hinit)
  have hstep : ∀ t s s', PushInv d₀ value s → (pushSystem d₀ value).step t s s' →
      PushInv d₀ value s' :=
    fun _ _ _ hinv h => hinv.next hd h
  have hdown : ∀ t s s', PushInv d₀ value s → (pushSystem d₀ value).step t s s' →
      pushPotential s' < pushPotential s :=
    fun _ _ _ hinv h => pushPotential_step_lt hd hinv h
  have hlen := System.Run.measure_add_length_le hstep hdown hrun hinv₀
  have hstart := pushPotential_init_le hinit.2
  rw [hinit.1] at hstart
  omega

/-- Three calls on a stack with room for two. -/
def roomForTwo : StackData Nat := ⟨0, 2, fun _ => 0⟩

theorem atomicPushBack_concurrent_roomForTwo :
    roomForTwo.Bounded ∧
      (∀ s₀ ls s, (pushSystem roomForTwo fun t : Fin 3 => t.val + 1).init s₀ →
        (pushSystem roomForTwo fun t : Fin 3 => t.val + 1).Run s₀ ls s →
        ls.length ≤ Fintype.card (Fin 3) *
            (2 * (roomForTwo.capacity.toNat - roomForTwo.backIndex.toInt.toNat) + 3) ∧
          ((∀ t, atomicPushBackNext (fun t : Fin 3 => t.val + 1) s t = none) →
            ∀ t, ∃ index pushed, s.pc t = .done index pushed)) ∧
      (∀ s, (pushSystem roomForTwo fun t : Fin 3 => t.val + 1).Reach s →
        s.data.backIndex.toInt ≤ roomForTwo.capacity.toNat) ∧
      ∀ s, (pushSystem roomForTwo fun t : Fin 3 => t.val + 1).Reach s →
        (∀ t, ∃ index pushed, s.pc t = .done index pushed) →
        PushOutcome roomForTwo (fun t : Fin 3 => t.val + 1) s :=
  have hd : roomForTwo.Bounded := ⟨by decide, by decide, by decide⟩
  ⟨hd, atomicPushBack_concurrent roomForTwo (fun t : Fin 3 => t.val + 1) hd⟩

end Outcome

end Gc

end ArtRuntime
