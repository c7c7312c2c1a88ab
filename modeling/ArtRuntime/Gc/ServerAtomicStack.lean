import Mathlib.Logic.Function.Basic

/-!
# Removal from the server-side mark stack

`ServerStructuredAtomicStack::OperateRemovalOnStack` drops from the stack the
entries a visitor picks, closing each gap by moving the entries above it down
by one slot:

    int _index = _front_index;
    while (true) {
      int _back_index = back_index_;
      if (_back_index == _index) break;
      T obj = GetEntryIndex(_index);
      if (visitor(obj, args)) {
        android_atomic_add(-1, &back_index_);
        _back_index = back_index_;
        for (int _elem = _index; _elem < _back_index; _elem++)
          SetEntryIndex(_elem, GetEntryIndex(_elem + 1));
      } else {
        _index++;
      }
    }

No push runs at the same time here, so the atomic add and each reload of
`back_index_` see what the loop itself wrote, and the visitor is a predicate
of the object (`args` is fixed). The indices are `int`s; from
`front_index_ ≤ back_index_` every index the loop computes lies between the
two, so the `Int` arithmetic below is the `int` arithmetic of the source.

The loop keeps the entries below `_index` as they are and holds the elements
not yet visited in `entries[_index, back_index_)`: a removal shifts them down
onto `_index`, a kept element moves `_index` past itself. Each turn shortens
`back_index_ - _index` by one, so the loop makes one turn per element and a
last test.

## Main definitions

* `slice`: The entries `entries[lo, lo + n)`.
* `ServerStack`, `ServerStack.contents`: `front_index_`, `back_index_` and the
  entries, and the elements between the two indices.
* `shiftDown`: The inner `for` loop.
* `removalLoop`, `operateRemovalOnStack`: The `while` loop, with fuel, and the
  objects it passes to the visitor.
* `Filtered`: What the loop from `_index` leaves on the stack.

## Theorems

* `shiftDown_apply`: The `for` loop moves each entry of its range down by one
  slot.
* `removalLoop_spec`: The loop from `_index` visits the elements above it in
  order and leaves the ones the visitor keeps.
* `operateRemovalOnStack_filters`: OperateRemovalOnStack ends, passes every
  element to the visitor once and in order, and leaves the stack's elements
  filtered in their order, `front_index_` unchanged.
-/

namespace ArtRuntime

namespace Gc

variable {α : Type}

/-! ### Slices of the entries -/

/-- The entries `entries[lo, lo + n)`, in order. -/
def slice (entries : Int → α) (lo : Int) : Nat → List α
  | 0 => []
  | n + 1 => entries lo :: slice entries (lo + 1) n

theorem slice_succ (entries : Int → α) (lo : Int) (n : Nat) :
    slice entries lo (n + 1) = entries lo :: slice entries (lo + 1) n := rfl

@[simp]
theorem length_slice (entries : Int → α) (lo : Int) (n : Nat) : (slice entries lo n).length = n := by
  induction n generalizing lo with
  | zero => rfl
  | succ n ih => rw [slice_succ, List.length_cons, ih]

/-- A slice reads only the entries of its range. -/
theorem slice_congr {entries entries' : Int → α} {lo : Int} {n : Nat}
    (h : ∀ j, lo ≤ j → j < lo + n → entries j = entries' j) :
    slice entries lo n = slice entries' lo n := by
  induction n generalizing lo with
  | zero => rfl
  | succ n ih =>
    rw [slice_succ, slice_succ, h lo (Int.le_refl lo) (by omega)]
    rw [ih fun j hlo hhi => h j (by omega) (by omega)]

/-- Moving the start of a slice up is reading each entry one slot higher. -/
theorem slice_add_one (entries : Int → α) (lo : Int) (n : Nat) :
    slice entries (lo + 1) n = slice (fun j => entries (j + 1)) lo n := by
  induction n generalizing lo with
  | zero => rfl
  | succ n ih => rw [slice_succ, slice_succ, ih]

/-! ### The model -/

/-- The fields of the stack OperateRemovalOnStack reads and writes:
    `front_index_`, `back_index_`, and the entries `server_begin_[ind]` that
    GetEntryIndex and SetEntryIndex read and write. -/
structure ServerStack (α : Type) where
  front_index : Int
  back_index : Int
  entries : Int → α

/-- The stack's elements, `entries[front_index_, back_index_)`. -/
def ServerStack.contents (s : ServerStack α) : List α :=
  slice s.entries s.front_index (s.back_index - s.front_index).toNat

/-- The inner loop
    `for (_elem = _index; _elem < _back_index; _elem++)
      SetEntryIndex(_elem, GetEntryIndex(_elem + 1))`
    from `elem`, making `n` turns: the loop makes `(_back_index - _index).toNat`. -/
def shiftDown (entries : Int → α) (elem : Int) : Nat → Int → α
  | 0 => entries
  | n + 1 => shiftDown (Function.update entries elem (entries (elem + 1))) (elem + 1) n

/-- The `while (true)` loop of OperateRemovalOnStack at `_index`, with the
    objects passed to the visitor so far; `none` once the fuel runs out. -/
def removalLoop (visitor : α → Bool) :
    Nat → ServerStack α → Int → List α → Option (ServerStack α × List α)
  | 0, _, _, _ => none
  | fuel + 1, s, index, calls =>
    if s.back_index = index then some (s, calls)
    else
      let obj := s.entries index
      if visitor obj then
        -- `android_atomic_add(-1, &back_index_)`, then the reload of `_back_index`
        let back_index := s.back_index - 1
        removalLoop visitor fuel
          { s with back_index, entries := shiftDown s.entries index (back_index - index).toNat }
          index (calls ++ [obj])
      else removalLoop visitor fuel s (index + 1) (calls ++ [obj])

/-- OperateRemovalOnStack(visitor, args): the stack it leaves and the objects
    it passed to the visitor, in order. -/
def operateRemovalOnStack (visitor : α → Bool) (fuel : Nat) (s : ServerStack α) :
    Option (ServerStack α × List α) :=
  removalLoop visitor fuel s s.front_index []

/-! ### The shift -/

/-- After the `for` loop from `elem` with `n` turns, the slot `j` of its range
    holds what slot `j + 1` held; the other slots are as they were. -/
theorem shiftDown_apply (entries : Int → α) (elem : Int) (n : Nat) (j : Int) :
    shiftDown entries elem n j = if elem ≤ j ∧ j < elem + n then entries (j + 1) else entries j := by
  induction n generalizing entries elem with
  | zero =>
    rw [shiftDown, if_neg (by omega)]
  | succ n ih =>
    rw [shiftDown, ih]
    -- the first turn wrote slot `elem`; the rest of the loop wrote above it
    rcases Int.lt_trichotomy j elem with hlt | rfl | hgt
    · rw [if_neg (by omega), if_neg (by omega), Function.update_of_ne (by omega)]
    · rw [if_neg (by omega), if_pos (by omega), Function.update_self]
    · by_cases hj : j < elem + 1 + n
      · rw [if_pos ⟨by omega, hj⟩, if_pos (by omega), Function.update_of_ne (by omega)]
      · rw [if_neg (by omega), if_neg (by omega), Function.update_of_ne (by omega)]

/-- The `for` loop leaves the entries below its start as they were. -/
theorem shiftDown_of_lt {entries : Int → α} {elem j : Int} (n : Nat) (hj : j < elem) :
    shiftDown entries elem n j = entries j := by
  rw [shiftDown_apply, if_neg (by omega)]

/-- Over its own range, the `for` loop moves the slice one slot down. -/
theorem slice_shiftDown (entries : Int → α) (lo : Int) (n : Nat) :
    slice (shiftDown entries lo n) lo n = slice entries (lo + 1) n := by
  rw [slice_add_one]
  exact slice_congr fun j hlo hhi => by rw [shiftDown_apply, if_pos ⟨hlo, hhi⟩]

/-! ### The loop -/

section Loop

variable {visitor : α → Bool}

/-- What the loop from `_index`, with the elements `rest` not yet visited,
    leaves on the stack `s`: `front_index_` and the entries below `_index`
    as they were, and the elements of `rest` that the visitor keeps, in
    order, from `_index` up to `back_index_`. -/
structure Filtered (visitor : α → Bool) (s s' : ServerStack α) (index : Int) (rest : List α) :
    Prop where
  front_eq : s'.front_index = s.front_index
  back_eq : s'.back_index = index + (rest.filter fun x => !visitor x).length
  below : ∀ j < index, s'.entries j = s.entries j
  kept : slice s'.entries index (rest.filter fun x => !visitor x).length =
    rest.filter fun x => !visitor x

/-- The loop stops at an empty range and leaves the stack as it is. -/
theorem Filtered.done {s : ServerStack α} {index : Int} (h : s.back_index = index) :
    Filtered visitor s s index [] :=
  ⟨rfl, by rw [h, List.filter_nil, List.length_nil]; omega, fun _ _ => rfl, rfl⟩

/-- A removal: what the loop leaves after shifting the rest down onto
    `_index` is what it leaves on the stack before the shift. -/
theorem Filtered.remove {s s' : ServerStack α} {index : Int} {x : α} {tail : List α}
    (hx : visitor x = true)
    (h : Filtered visitor { s with
      back_index := s.back_index - 1,
      entries := shiftDown s.entries index (s.back_index - 1 - index).toNat } s' index tail) :
    Filtered visitor s s' index (x :: tail) := by
  have hfilter : ((x :: tail).filter fun x => !visitor x) = tail.filter fun x => !visitor x := by
    rw [List.filter_cons_of_neg (by rw [hx]; decide)]
  refine ⟨h.front_eq, ?_, fun j hj => ?_, ?_⟩
  · rw [hfilter]
    exact h.back_eq
  · rw [h.below j hj]
    exact shiftDown_of_lt _ hj
  · rw [hfilter]
    exact h.kept

/-- A kept element: what the loop leaves from `_index + 1` is what it
    leaves from `_index`, the element staying at `_index`. -/
theorem Filtered.keep {s s' : ServerStack α} {index : Int} {x : α} {tail : List α}
    (hx : visitor x = false) (hobj : s.entries index = x)
    (h : Filtered visitor s s' (index + 1) tail) :
    Filtered visitor s s' index (x :: tail) := by
  have hfilter : ((x :: tail).filter fun x => !visitor x) = x :: tail.filter fun x => !visitor x := by
    rw [List.filter_cons_of_pos (by rw [hx]; decide)]
  refine ⟨h.front_eq, ?_, fun j hj => h.below j (by omega), ?_⟩
  · rw [hfilter, h.back_eq, List.length_cons]
    push_cast
    omega
  · rw [hfilter, List.length_cons, slice_succ, h.kept, h.below index (by omega), hobj]

/-- The loop from `_index`, with the elements `rest` in
    `entries[_index, back_index_)`, passes them to the visitor in order and
    leaves those it keeps, given a turn of fuel for each and one for the last
    test. The induction is on `rest`, one element a turn. -/
theorem removalLoop_spec (rest : List α) :
    ∀ (fuel : Nat) (s : ServerStack α) (index : Int) (calls : List α),
      index ≤ s.back_index → slice s.entries index (s.back_index - index).toNat = rest →
      rest.length < fuel →
      ∃ s', removalLoop visitor fuel s index calls = some (s', calls ++ rest) ∧
        Filtered visitor s s' index rest := by
  induction rest with
  | nil =>
    intro fuel s index calls hle hslice hfuel
    obtain ⟨fuel, rfl⟩ : ∃ f, fuel = f + 1 := ⟨fuel - 1, by simp at hfuel; omega⟩
    have hlen := congrArg List.length hslice
    rw [length_slice, List.length_nil] at hlen
    have hback : s.back_index = index := by omega
    refine ⟨s, ?_, Filtered.done hback⟩
    rw [removalLoop, if_pos hback, List.append_nil]
  | cons x tail ih =>
    intro fuel s index calls hle hslice hfuel
    obtain ⟨fuel, rfl⟩ : ∃ f, fuel = f + 1 := ⟨fuel - 1, by omega⟩
    have hlen := congrArg List.length hslice
    rw [length_slice, List.length_cons] at hlen
    have hback : s.back_index ≠ index := by omega
    -- the range is not empty: its first entry is `x`, the rest is `tail`
    obtain ⟨n, hn⟩ : ∃ n, (s.back_index - index).toNat = n + 1 := ⟨tail.length, hlen⟩
    rw [hn, slice_succ, List.cons.injEq] at hslice
    obtain ⟨hobj, hrest⟩ := hslice
    rw [removalLoop, if_neg hback]
    dsimp only
    rw [hobj]
    cases hx : visitor x with
    | true =>
      -- the rest moves down onto `_index`, one slot fewer
      have hn' : (s.back_index - 1 - index).toNat = n := by omega
      obtain ⟨s', hrun, hf⟩ := ih fuel { s with
          back_index := s.back_index - 1,
          entries := shiftDown s.entries index (s.back_index - 1 - index).toNat }
        index (calls ++ [x]) (by dsimp only; omega)
        (by dsimp only; rw [hn', slice_shiftDown, hrest])
        (by rw [List.length_cons] at hfuel; omega)
      refine ⟨s', ?_, hf.remove hx⟩
      rw [if_pos rfl, hrun, List.append_assoc, List.singleton_append]
    | false =>
      -- `_index` moves past the kept element
      have hn' : (s.back_index - (index + 1)).toNat = n := by omega
      obtain ⟨s', hrun, hf⟩ := ih fuel s (index + 1) (calls ++ [x]) (by omega)
        (by rw [hn', hrest]) (by rw [List.length_cons] at hfuel; omega)
      refine ⟨s', ?_, hf.keep hx hobj⟩
      rw [if_neg Bool.false_ne_true, hrun, List.append_assoc, List.singleton_append]

end Loop

/-- OperateRemovalOnStack on a stack with no push running: with a turn of
    fuel for each element and one for the last test it ends, passes each
    element to the visitor once and in order, and leaves `front_index_` as
    it was and the elements the visitor keeps, in their order. -/
theorem operateRemovalOnStack_filters (visitor : α → Bool) (s : ServerStack α) (fuel : Nat)
    (hle : s.front_index ≤ s.back_index) (hfuel : s.contents.length < fuel) :
    ∃ s', operateRemovalOnStack visitor fuel s = some (s', s.contents) ∧
      s'.front_index = s.front_index ∧ s'.contents = s.contents.filter fun x => !visitor x := by
  obtain ⟨s', hrun, hf⟩ := removalLoop_spec s.contents fuel s s.front_index [] hle rfl hfuel
  refine ⟨s', hrun, hf.front_eq, ?_⟩
  have hlen : (s'.back_index - s'.front_index).toNat = (s.contents.filter fun x => !visitor x).length := by
    rw [hf.back_eq, hf.front_eq]
    omega
  rw [ServerStack.contents, hlen, hf.front_eq]
  exact hf.kept

/-- Three entries `0, 1, 2`. -/
def threeEntries : ServerStack Nat := ⟨0, 3, fun i => i.toNat⟩

/-- Removing the even entries of `threeEntries`. -/
theorem operateRemovalOnStack_filters_evens :
    threeEntries.front_index ≤ threeEntries.back_index ∧ threeEntries.contents.length < 4 ∧
      ∃ s', operateRemovalOnStack (fun x => x % 2 == 0) 4 threeEntries = some (s', threeEntries.contents) ∧
        s'.front_index = threeEntries.front_index ∧
        s'.contents = threeEntries.contents.filter fun x => !(x % 2 == 0) :=
  ⟨by decide, by decide, operateRemovalOnStack_filters _ _ _ (by decide) (by decide)⟩

example : (operateRemovalOnStack (fun x => x % 2 == 0) 4 threeEntries).map
    (fun r => (r.1.contents, r.2)) = some ([1], [0, 1, 2]) := by decide

end Gc

end ArtRuntime
