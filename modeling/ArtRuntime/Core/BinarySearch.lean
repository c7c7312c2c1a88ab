import Mathlib

/-!
# Binary Search

The loop that looks a key up in a table of `n` elements:

    int32_t lo = 0;
    int32_t hi = n - 1;
    while (hi >= lo) {
      int32_t mid = (hi + lo) / 2;
      // compare the key with element mid
      if (greater) lo = mid + 1; else if (smaller) hi = mid - 1; else return mid;
    }
    return NULL;

The comparison is any function from elements to `Ordering`. It says where the
key lies against the element: `gt` when the key is above it.

The search is correct when the comparison orders the key against a value of
each element in some linear order (`ComparesTo`) and the values increase
strictly along the table (`StrictlyIncreasing`). It then returns the index of
the element whose value is the key, and none when there is no such element.
Strict increase between neighbours is enough, which is what a check of each
element against the one before it establishes.

## Main definitions

* `BinarySearch.search`: The loop, from given bounds.
* `BinarySearch.binarySearch`: The loop over a table of `n` elements.
* `BinarySearch.ComparesTo`: The comparison orders the key against each
  element's value.
* `BinarySearch.StrictlyIncreasing`: Each element's value is below the next
  one's.
* `BinarySearch.Locates`: A result is the index of the one element with a
  property, or none when no element has it.
* `BinarySearch.Splits`: The comparison answers `gt` on a prefix of the table,
  `lt` on a suffix, and `eq` on one element at most. A key inside one of a
  row of disjoint sorted intervals splits the row so.

## Theorems

* `BinarySearch.search_eq_some_iff`: The loop, started with every element
  below `lo` under the key and every element above `hi` over it, returns
  exactly the index of an element of the key's value.
* `BinarySearch.binarySearch_locates`: The search over a strictly increasing
  table locates the key's value.
* `BinarySearch.Locates.of_iff`: Locating one property locates any
  equivalent one.
* `BinarySearch.search_eq_none_of_ne_eq`: A comparison that never answers
  equal finds nothing.
* `BinarySearch.Locates.findIdx_eq`: What locates a property is the first
  index with it.
* `BinarySearch.binarySearch_locates_of_splits`: The search over a table the
  comparison splits into the elements under the key, at most one at it and
  those over it, locates the element at the key.
-/

namespace BinarySearch

variable {α β : Type}

/-- The loop `while (hi >= lo)`, with `mid = (hi + lo) / 2`. -/
def search (get : Nat → α) (cmp : α → Ordering) (lo hi : Int) : Option Nat :=
  if lo ≤ hi then
    match cmp (get ((hi + lo) / 2).toNat) with
    | .gt => search get cmp ((hi + lo) / 2 + 1) hi
    | .lt => search get cmp lo ((hi + lo) / 2 - 1)
    | .eq => some ((hi + lo) / 2).toNat
  else none
termination_by (hi + 1 - lo).toNat
decreasing_by all_goals omega

/-- The search over the table's elements `0` to `n - 1`. -/
def binarySearch (get : Nat → α) (cmp : α → Ordering) (n : Nat) : Option Nat :=
  search get cmp 0 ((n : Int) - 1)

/-- `cmp` orders the key `k` against the value of each element. -/
structure ComparesTo [LT β] (cmp : α → Ordering) (val : α → β) (k : β) : Prop where
  gt_iff : ∀ e, cmp e = .gt ↔ val e < k
  lt_iff : ∀ e, cmp e = .lt ↔ k < val e

/-- The values of the first `n` elements increase strictly. -/
def StrictlyIncreasing [LT β] (get : Nat → α) (val : α → β) (n : Nat) : Prop :=
  ∀ i, i + 1 < n → val (get i) < val (get (i + 1))

/-- `r` is the index of the one element below `n` with `P`, or none when no
    element has it. -/
def Locates (r : Option Nat) (n : Nat) (P : Nat → Prop) : Prop :=
  (∀ i, r = some i ↔ i < n ∧ P i) ∧ (r = none ↔ ∀ i, i < n → ¬ P i)

theorem Locates.of_iff {r : Option Nat} {n : Nat} {P Q : Nat → Prop} (h : Locates r n P)
    (hPQ : ∀ i, i < n → (P i ↔ Q i)) : Locates r n Q := by
  constructor
  · intro i
    rw [h.1 i]
    constructor
    · intro ⟨hi, hp⟩
      exact ⟨hi, (hPQ i hi).mp hp⟩
    · intro ⟨hi, hq⟩
      exact ⟨hi, (hPQ i hi).mpr hq⟩
  · rw [h.2]
    constructor
    · intro hn i hi hq
      exact hn i hi ((hPQ i hi).mpr hq)
    · intro hn i hi hp
      exact hn i hi ((hPQ i hi).mp hp)

/-- The index of the one element of a list with a property is the index
    `findIdx?` finds first. -/
theorem Locates.findIdx_eq {r : Option Nat} {n : Nat} {P : Nat → Prop} (h : Locates r n P)
    {l : List α} (hl : l.length = n) {p : α → Bool} (hp : ∀ i (hi : i < l.length), p l[i] = true ↔ P i) :
    l.findIdx? p = r := by
  cases hr : r with
  | none =>
    rw [List.findIdx?_eq_none_iff]
    intro x hx
    obtain ⟨i, hi, rfl⟩ := List.mem_iff_getElem.mp hx
    exact Bool.eq_false_iff.mpr fun hpi => h.2.mp hr i (hl ▸ hi) ((hp i hi).mp hpi)
  | some i =>
    have ⟨hi, hP⟩ := (h.1 i).mp hr
    rw [List.findIdx?_eq_some_iff_getElem]
    refine ⟨hl ▸ hi, (hp i (hl ▸ hi)).mpr hP, fun j hji hpj => ?_⟩
    -- an earlier element with the property would be located instead
    have hj := (h.1 j).mpr ⟨by omega, (hp j (by omega)).mp hpj⟩
    rw [hr, Option.some_inj] at hj
    omega

/-- A comparison that never answers `eq` finds nothing, whatever the table. -/
theorem search_eq_none_of_ne_eq {get : Nat → α} {cmp : α → Ordering} (hne : ∀ e, cmp e ≠ .eq)
    (lo hi : Int) : search get cmp lo hi = none := by
  induction lo, hi using search.induct get cmp with
  | case1 lo hi hle hmid ih => rw [search, if_pos hle, hmid, ih]
  | case2 lo hi hle hmid ih => rw [search, if_pos hle, hmid, ih]
  | case3 lo hi hle hmid => exact absurd hmid (hne _)
  | case4 lo hi hgt => rw [search, if_neg hgt]

section LinearOrder

variable [LinearOrder β] {get : Nat → α} {cmp : α → Ordering} {val : α → β} {k : β} {n : Nat}

theorem ComparesTo.eq_iff (hc : ComparesTo cmp val k) (e : α) : cmp e = .eq ↔ val e = k := by
  constructor
  · intro h
    rcases lt_trichotomy (val e) k with hlt | heq | hgt
    · rw [(hc.gt_iff e).mpr hlt] at h
      cases h
    · exact heq
    · rw [(hc.lt_iff e).mpr hgt] at h
      cases h
  · intro h
    cases he : cmp e with
    | lt =>
      rw [hc.lt_iff e, h] at he
      exact absurd he (lt_irrefl k)
    | eq => rfl
    | gt =>
      rw [hc.gt_iff e, h] at he
      exact absurd he (lt_irrefl k)

theorem StrictlyIncreasing.lt (hs : StrictlyIncreasing get val n) {i j : Nat} (hij : i < j)
    (hj : j < n) : val (get i) < val (get j) := by
  induction j with
  | zero => exact absurd hij (Nat.not_lt_zero i)
  | succ j ih =>
    by_cases hi : i = j
    · subst hi
      exact hs i hj
    · exact (ih (by omega) (by omega)).trans (hs j hj)

theorem StrictlyIncreasing.le (hs : StrictlyIncreasing get val n) {i j : Nat} (hij : i ≤ j)
    (hj : j < n) : val (get i) ≤ val (get j) := by
  rcases Nat.lt_or_eq_of_le hij with hlt | heq
  · exact (hs.lt hlt hj).le
  · rw [heq]

/-- The loop keeps every element below `lo` under the key and every element
    above `hi` over it; when the bounds cross, no element is left. -/
theorem search_eq_some_iff (hc : ComparesTo cmp val k) (hs : StrictlyIncreasing get val n)
    {lo hi : Int} (h0 : 0 ≤ lo) (hn : hi < n)
    (hbelow : ∀ i : Nat, (i : Int) < lo → val (get i) < k)
    (habove : ∀ i : Nat, hi < i → i < n → k < val (get i)) (i : Nat) :
    search get cmp lo hi = some i ↔ i < n ∧ val (get i) = k := by
  induction lo, hi using search.induct get cmp with
  | case1 lo hi hle hmid ih =>
    -- the key is above mid, and so above everything up to mid
    rw [search, if_pos hle, hmid]
    have hm : val (get ((hi + lo) / 2).toNat) < k := (hc.gt_iff _).mp hmid
    refine ih (by omega) hn (fun j hj => ?_) habove
    by_cases hjl : (j : Int) < lo
    · exact hbelow j hjl
    · exact lt_of_le_of_lt (hs.le (by omega) (by omega)) hm
  | case2 lo hi hle hmid ih =>
    -- the key is below mid, and so below everything from mid on
    rw [search, if_pos hle, hmid]
    have hm : k < val (get ((hi + lo) / 2).toNat) := (hc.lt_iff _).mp hmid
    refine ih h0 (by omega) hbelow (fun j hj hjn => ?_)
    by_cases hjh : hi < (j : Int)
    · exact habove j hjh hjn
    · exact lt_of_lt_of_le hm (hs.le (by omega) hjn)
  | case3 lo hi hle hmid =>
    rw [search, if_pos hle, hmid]
    have hm : val (get ((hi + lo) / 2).toNat) = k := (hc.eq_iff _).mp hmid
    constructor
    · intro h
      cases h
      exact ⟨by omega, hm⟩
    · -- values are distinct, so mid is the only index with the key's value
      intro ⟨hi', hk⟩
      rcases Nat.lt_trichotomy i ((hi + lo) / 2).toNat with hlt | heq | hgt
      · exact absurd (hs.lt hlt (by omega)) (by rw [hk, hm]; exact lt_irrefl k)
      · rw [heq]
      · exact absurd (hs.lt hgt hi') (by rw [hk, hm]; exact lt_irrefl k)
  | case4 lo hi hgt =>
    rw [search, if_neg hgt]
    constructor
    · intro h
      cases h
    · -- the bounds have crossed: every index is below lo or above hi
      intro ⟨hi', hk⟩
      by_cases hil : (i : Int) < lo
      · exact absurd (hbelow i hil) (by rw [hk]; exact lt_irrefl k)
      · exact absurd (habove i (by omega) hi') (by rw [hk]; exact lt_irrefl k)

theorem binarySearch_locates (hc : ComparesTo cmp val k) (hs : StrictlyIncreasing get val n) :
    Locates (binarySearch get cmp n) n fun i => val (get i) = k := by
  have hsome : ∀ i, binarySearch get cmp n = some i ↔ i < n ∧ val (get i) = k :=
    search_eq_some_iff hc hs (Int.le_refl 0) (by omega) (fun _ hi => absurd hi (by omega))
      (fun _ hi hin => absurd hin (by omega))
  refine ⟨hsome, ?_⟩
  rw [Option.eq_none_iff_forall_ne_some]
  constructor
  · intro h i hi hk
    exact h i ((hsome i).mpr ⟨hi, hk⟩)
  · intro h i hr
    have ⟨hi, hk⟩ := (hsome i).mp hr
    exact h i hi hk

end LinearOrder

section Splits

/-- `cmp` answers `gt` on a prefix of the first `n` elements, `lt` on a
    suffix, and `eq` on one element at most. -/
structure Splits (get : Nat → α) (cmp : α → Ordering) (n : Nat) : Prop where
  gt_of_le : ∀ i j, i ≤ j → j < n → cmp (get j) = .gt → cmp (get i) = .gt
  lt_of_le : ∀ i j, i ≤ j → j < n → cmp (get i) = .lt → cmp (get j) = .lt
  eq_unique : ∀ i j, i < n → j < n → cmp (get i) = .eq → cmp (get j) = .eq → i = j

variable {get : Nat → α} {cmp : α → Ordering} {n : Nat}

/-- The loop keeps `gt` below `lo` and `lt` above `hi`; the index it returns is
    the one the comparison answers `eq` on. -/
theorem search_eq_some_iff_of_splits (hs : Splits get cmp n) {lo hi : Int} (h0 : 0 ≤ lo) (hn : hi < n)
    (hbelow : ∀ i : Nat, (i : Int) < lo → cmp (get i) = .gt)
    (habove : ∀ i : Nat, hi < i → i < n → cmp (get i) = .lt) (i : Nat) :
    search get cmp lo hi = some i ↔ i < n ∧ cmp (get i) = .eq := by
  induction lo, hi using search.induct get cmp with
  | case1 lo hi hle hmid ih =>
    -- `gt` at mid, and so at everything up to mid
    rw [search, if_pos hle, hmid]
    refine ih (by omega) hn (fun j hj => ?_) habove
    by_cases hjl : (j : Int) < lo
    · exact hbelow j hjl
    · exact hs.gt_of_le j _ (by omega) (by omega) hmid
  | case2 lo hi hle hmid ih =>
    -- `lt` at mid, and so at everything from mid on
    rw [search, if_pos hle, hmid]
    refine ih h0 (by omega) hbelow (fun j hj hjn => ?_)
    by_cases hjh : hi < (j : Int)
    · exact habove j hjh hjn
    · exact hs.lt_of_le _ j (by omega) hjn hmid
  | case3 lo hi hle hmid =>
    rw [search, if_pos hle, hmid]
    constructor
    · intro h
      cases h
      exact ⟨by omega, hmid⟩
    · -- no other element is at the key
      intro ⟨hi', heq⟩
      rw [hs.eq_unique i _ hi' (by omega) heq hmid]
  | case4 lo hi hgt =>
    rw [search, if_neg hgt]
    constructor
    · intro h
      cases h
    · -- the bounds have crossed: every index is below lo or above hi
      intro ⟨hi', heq⟩
      by_cases hil : (i : Int) < lo
      · rw [hbelow i hil] at heq
        cases heq
      · rw [habove i (by omega) hi'] at heq
        cases heq

theorem binarySearch_locates_of_splits (hs : Splits get cmp n) :
    Locates (binarySearch get cmp n) n fun i => cmp (get i) = .eq := by
  have hsome : ∀ i, binarySearch get cmp n = some i ↔ i < n ∧ cmp (get i) = .eq :=
    search_eq_some_iff_of_splits hs (Int.le_refl 0) (by omega) (fun _ hi => absurd hi (by omega))
      (fun _ hi hin => absurd hin (by omega))
  refine ⟨hsome, ?_⟩
  rw [Option.eq_none_iff_forall_ne_some]
  constructor
  · intro h i hi hk
    exact h i ((hsome i).mpr ⟨hi, hk⟩)
  · intro h i hr
    have ⟨hi, hk⟩ := (hsome i).mp hr
    exact h i hi hk

end Splits

end BinarySearch
