import Mathlib.Data.List.Sort
import ArtRuntime.Core.Word

/-!
# The Free-List Large Object Space

`FreeListSpace` hands out page-aligned blocks of one mapping. Every block
starts with an `AllocationHeader`: its size, header included, and the length
of the free run just before it. Free runs are not marked otherwise; a block
that follows one is kept in `free_blocks_`, a set ordered by that length, so
that `Alloc` can find the smallest run that fits by `lower_bound`. What is
free at the end of the mapping is counted by `free_end_` alone.

The size of a request is `RoundUp(num_bytes + sizeof(AllocationHeader),
kAlignment)`, computed in `size_t`. On the 32-bit target that sum wraps for
requests within a page of `2 ^ 32`, and the rounded size is `0` or one page,
smaller than the request (`allocationSize_lt_of_wraps`). `Alloc` takes such
a size from the free end like any other and returns the block
(`alloc_wraps`). For a request of `2 ^ 32 - 8` bytes the size is `0`: the
block's header says it is free, the free end does not move, and the next
such request gets the same address (`alloc_same_object_twice`).

The model runs one thread under the space's lock. Memory is read through
`mem`, the header at each address; pages released with `madvise` read as
zero headers. The set is a list in the set's order. A failed `CHECK` aborts,
which is `none`. The stack temporary that `Alloc` passes to `lower_bound` has
an address of its own, an argument here, which the order compares only when
two keys agree on both sizes.

## Main definitions

* `roundDown`, `roundUp`: `RoundDown` and `RoundUp` at `size_t`.
* `AllocationHeader`, `sortByPrevFree`: The header and the set's order.
* `FreeListSpace`, `FreeListSpace.create`, `FreeListSpace.alloc`,
  `FreeListSpace.free`: The space and its operations.

## Theorems

* `toNat_allocationSize`: The size of a request, with the wrap.
* `allocationSize_spec`: Without a wrap, the size is the request and header
  rounded up to whole pages.
* `alloc_of_end`: `Alloc` from the free end.
* `alloc_wraps`: A request within a page of `2 ^ 32` gets a block smaller
  than itself.
* `alloc_same_object_twice`: Two requests of `2 ^ 32 - 8` bytes get the same
  object.
-/

namespace ArtRuntime

namespace Gc

open MachineWord

/-! ### Rounding, from `utils.h` -/

/-- `RoundDown` at `size_t`: the `int` alignment converts to the unsigned
    type, so `-n` is `2 ^ 32 - n`. -/
def roundDown (x n : UInt32) : UInt32 := x &&& (0 - n)

/-- `RoundUp` at `size_t`. -/
def roundUp (x n : UInt32) : UInt32 := roundDown (x + n - 1) n

/-- `kPageSize`, which is the space's `kAlignment`. -/
def kPageSize : UInt32 := 4096

/-- `sizeof(AllocationHeader)` on the 32-bit target: two `size_t`. -/
def kHeaderSize : UInt32 := 8

/-- The first line of `FreeListSpace::Alloc`: the block size for a request. -/
def allocationSize (num_bytes : UInt32) : UInt32 :=
  roundUp (num_bytes + kHeaderSize) kPageSize

/-! ### Headers and the free set -/

/-- `FreeListSpace::AllocationHeader`. -/
structure AllocationHeader where
  prev_free : UInt32
  alloc_size : UInt32
  deriving DecidableEq, Repr

/-- `AllocationHeader::IsFree`. -/
def AllocationHeader.isFree (h : AllocationHeader) : Bool := h.alloc_size == 0

/-- `AllocationHeader::SortByPrevFree`, on headers with their addresses. -/
def sortByPrevFree (a b : AllocationHeader × Nat) : Bool :=
  if a.1.prev_free < b.1.prev_free then true
  else if a.1.prev_free > b.1.prev_free then false
  else if a.1.alloc_size < b.1.alloc_size then true
  else if a.1.alloc_size > b.1.alloc_size then false
  else a.2 < b.2

/-- The state of a `FreeListSpace`. -/
structure FreeListSpace where
  begin_ : Nat
  end_ : Nat
  free_end : UInt32
  /-- The header read at each address. -/
  mem : Nat → AllocationHeader
  /-- `free_blocks_`: header addresses, in the set's order. -/
  free_blocks : List Nat

namespace FreeListSpace

/-- A header's key in the set: its fields as they are now, and its address. -/
def key (s : FreeListSpace) (a : Nat) : AllocationHeader × Nat := (s.mem a, a)

/-- `free_blocks_.lower_bound(k)`: the first element not ordered before `k`. -/
def lowerBound (s : FreeListSpace) (k : AllocationHeader × Nat) : Option Nat :=
  s.free_blocks.find? fun a => !sortByPrevFree (s.key a) k

/-- `free_blocks_.insert(a)`: nothing if an equivalent element is there,
    else `a` in its place in the order. -/
def insertFree (s : FreeListSpace) (a : Nat) : FreeListSpace :=
  if s.free_blocks.any fun e =>
      !sortByPrevFree (s.key a) (s.key e) && !sortByPrevFree (s.key e) (s.key a) then s
  else
    { s with
      free_blocks := s.free_blocks.orderedInsert (fun b c => sortByPrevFree (s.key b) (s.key c)) a }

/-- A write of the header at `a`. -/
def setHeader (s : FreeListSpace) (a : Nat) (h : AllocationHeader) : FreeListSpace :=
  { s with mem := Function.update s.mem a h }

/-- `madvise(a, n, MADV_DONTNEED)`: the pages read back as zero. -/
def release (s : FreeListSpace) (a n : Nat) : FreeListSpace :=
  { s with mem := fun x => if a ≤ x ∧ x < a + n then ⟨0, 0⟩ else s.mem x }

/-- `FreeListSpace::Create` over a fresh mapping at `begin_`, which reads as
    zero. -/
def create (begin_ size : Nat) : Option FreeListSpace :=
  if size % kPageSize.toNat = 0 then
    some
      { begin_, end_ := begin_ + size, free_end := size.toUInt32, mem := fun _ => ⟨0, 0⟩,
        free_blocks := [] }
  else none

/-- `FreeListSpace::RemoveFreePrev`, with its `CHECK`s. -/
def removeFreePrev (s : FreeListSpace) (header : Nat) : Option FreeListSpace :=
  if (s.mem header).isFree then none
  else if (s.mem header).prev_free = 0 then none
  else
    match s.lowerBound (s.key header) with
    | none => none
    | some found =>
      if found = header then some { s with free_blocks := s.free_blocks.erase found } else none

/-- `AllocationHeader::GetNextNonFree` from `pos`, page by page; a read past
    the end of the mapping fails. -/
def getNextNonFree (s : FreeListSpace) (pos : Nat) : Option Nat :=
  if pos < s.end_ then
    if !(s.mem pos).isFree then some pos else s.getNextNonFree (pos + kPageSize.toNat)
  else none
termination_by s.end_ - pos
decreasing_by
  have : 0 < kPageSize.toNat := by decide
  omega

/-- `FreeListSpace::Alloc` with the address of its stack temporary: the object
    address, or `none` for `NULL`, and the new state. The best fit comes
    first; the free end only when no run fits. -/
def alloc (s : FreeListSpace) (num_bytes : UInt32) (temp_addr : Nat) : Option Nat × FreeListSpace :=
  let allocation_size := allocationSize num_bytes
  let temp : AllocationHeader := ⟨allocation_size, 0⟩
  let taken : Option (Nat × FreeListSpace) :=
    match s.lowerBound (temp, temp_addr) with
    | some header =>
      let s := { s with free_blocks := s.free_blocks.erase header }
      let h := s.mem header
      -- the object goes at the front of the run before `header`
      let new_header := header - h.prev_free.toNat
      let s := s.setHeader header { h with prev_free := h.prev_free - allocation_size }
      let s := if (s.mem header).prev_free > 0 then s.insertFree header else s
      some (new_header, s)
    | none =>
      if s.free_end ≥ allocation_size then
        some (s.end_ - s.free_end.toNat, { s with free_end := s.free_end - allocation_size })
      else none
  match taken with
  | none => (none, s)
  | some (new_header, s) =>
    (some (new_header + kHeaderSize.toNat), s.setHeader new_header ⟨0, allocation_size⟩)

/-- `FreeListSpace::Free`: the block's size and the new state, or `none` when
    a `CHECK` fails. The freed block joins the run before it, and the run or
    block after it, or the free end. -/
def free (s : FreeListSpace) (obj : Nat) : Option (UInt32 × FreeListSpace) := do
  let header := obj - kHeaderSize.toNat
  if header % kPageSize.toNat ≠ 0 then none
  let allocation_size := (s.mem header).alloc_size
  let next_header := header + allocation_size.toNat
  let free_end_start := s.end_ - s.free_end.toNat
  let header_prev_free := (s.mem header).prev_free
  let (new_free_size, s) ←
    if header_prev_free ≠ 0 then do
      let s ← s.removeFreePrev header
      pure (allocation_size + header_prev_free, s)
    else pure (allocation_size, s)
  let s ←
    if next_header ≥ free_end_start then
      -- the next chunk is the free end
      if next_header = free_end_start then pure { s with free_end := s.free_end + new_free_size }
      else none
    else do
      let (new_free_header, new_free_size, s) ←
        if (s.mem next_header).isFree then do
          let next_next_header ← s.getNextNonFree next_header
          let s ← s.removeFreePrev next_next_header
          pure (next_next_header, new_free_size + (s.mem next_next_header).prev_free, s)
        else pure (next_header, new_free_size, s)
      let s := s.setHeader new_free_header { s.mem new_free_header with prev_free := new_free_size }
      pure (s.insertFree new_free_header)
  pure (allocation_size, s.release header allocation_size.toNat)

end FreeListSpace

/-! ### The size of a request -/

theorem toNat_roundUp_page (x : UInt32) :
    (roundUp x kPageSize).toNat = (x.toNat + 4095) % 2 ^ 32 / 2 ^ 12 * 2 ^ 12 := by
  have hsum : (x + kPageSize - 1).toNat = (x.toNat + 4095) % 2 ^ 32 := by
    rw [UInt32.toNat_sub, UInt32.toNat_add]
    simp only [kPageSize, UInt32.reduceToNat]
    omega
  rw [roundUp, roundDown, toNat_and_high_mask _ _ (k := 12) (by decide) (by decide), hsum]

/-- The size of a request, with the wrap of the `size_t` sum. -/
theorem toNat_allocationSize (num_bytes : UInt32) :
    (allocationSize num_bytes).toNat = (num_bytes.toNat + 4103) % 2 ^ 32 / 2 ^ 12 * 2 ^ 12 := by
  rw [allocationSize, toNat_roundUp_page, UInt32.toNat_add]
  simp only [kHeaderSize, UInt32.reduceToNat]
  omega

/-- Without a wrap, the block holds the request and the header, in whole
    pages, and is not empty. -/
theorem allocationSize_spec {num_bytes : UInt32} (h : num_bytes.toNat + 4103 < 2 ^ 32) :
    num_bytes.toNat + 8 ≤ (allocationSize num_bytes).toNat ∧
      (allocationSize num_bytes).toNat % 4096 = 0 := by
  rw [toNat_allocationSize, Nat.mod_eq_of_lt h]
  omega

/-- A request within a page of `2 ^ 32`: the sum wraps, and the block is at
    most a page, smaller than the request. -/
theorem allocationSize_lt_of_wraps {num_bytes : UInt32} (h : 2 ^ 32 ≤ num_bytes.toNat + 4103) :
    (allocationSize num_bytes).toNat ≤ 4096 ∧
      (allocationSize num_bytes).toNat < num_bytes.toNat + 8 := by
  have hn := num_bytes.toNat_lt
  rw [toNat_allocationSize]
  omega

/-! ### `Alloc` from the free end -/

namespace FreeListSpace

variable {s : FreeListSpace} {num_bytes : UInt32} {temp_addr : Nat}

theorem lowerBound_nil (hs : s.free_blocks = []) (k : AllocationHeader × Nat) :
    s.lowerBound k = none := by
  simp [lowerBound, hs]

/-- With no run that fits, and room at the free end, the block is cut from
    the front of the free end. -/
theorem alloc_of_end
    (hfound : s.lowerBound (⟨allocationSize num_bytes, 0⟩, temp_addr) = none)
    (hroom : allocationSize num_bytes ≤ s.free_end) :
    s.alloc num_bytes temp_addr =
      (some (s.end_ - s.free_end.toNat + kHeaderSize.toNat),
        { s with free_end := s.free_end - allocationSize num_bytes }.setHeader
          (s.end_ - s.free_end.toNat) ⟨0, allocationSize num_bytes⟩) := by
  simp only [alloc, hfound, ge_iff_le, hroom, if_true]

theorem create_eq {begin_ size : Nat} {s : FreeListSpace} (hs : create begin_ size = some s) :
    s =
      { begin_, end_ := begin_ + size, free_end := size.toUInt32, mem := fun _ => ⟨0, 0⟩,
        free_blocks := [] } := by
  unfold create at hs
  split_ifs at hs
  exact (Option.some.inj hs).symm

/-- A fresh space of at least a page, asked for a request within a page of
    `2 ^ 32`: `Alloc` returns the first object of the space, and its block is
    smaller than the request. -/
theorem alloc_wraps (begin_ size : Nat) (s : FreeListSpace) (hs : create begin_ size = some s)
    (hsize : 4096 ≤ size) (hfit : size < 2 ^ 32) (num_bytes : UInt32)
    (hbig : 2 ^ 32 ≤ num_bytes.toNat + 4103) (temp_addr : Nat) :
    (s.alloc num_bytes temp_addr).1 = some (begin_ + 8) ∧
      ((s.alloc num_bytes temp_addr).2.mem begin_).alloc_size.toNat < num_bytes.toNat + 8 := by
  rcases allocationSize_lt_of_wraps hbig with ⟨hpage, hsmall⟩
  have hs' := create_eq hs
  subst hs'
  have hfree : size.toUInt32.toNat = size := by rw [toNat_toUInt32, Nat.mod_eq_of_lt hfit]
  have hroom : allocationSize num_bytes ≤ size.toUInt32 := by
    rw [UInt32.le_iff_toNat_le, hfree]
    omega
  -- the set is empty, so the block comes from the free end, which starts at `begin_`
  rw [alloc_of_end (lowerBound_nil rfl _) hroom]
  simp only [hfree, Nat.add_sub_cancel, setHeader, Function.update_self]
  exact ⟨rfl, hsmall⟩

/-- A fresh space of one page. -/
def onePageSpace : FreeListSpace :=
  { begin_ := 0x40000000, end_ := 0x40001000, free_end := 4096, mem := fun _ => ⟨0, 0⟩,
    free_blocks := [] }

theorem alloc_wraps_onePage :
    create 0x40000000 4096 = some onePageSpace ∧ 4096 ≤ 4096 ∧ 4096 < 2 ^ 32 ∧
      2 ^ 32 ≤ (4294967288 : UInt32).toNat + 4103 ∧
      (onePageSpace.alloc 4294967288 0).1 = some (0x40000000 + 8) ∧
      ((onePageSpace.alloc 4294967288 0).2.mem 0x40000000).alloc_size.toNat <
        (4294967288 : UInt32).toNat + 8 :=
  ⟨rfl, by decide, by decide, by decide,
    alloc_wraps 0x40000000 4096 onePageSpace rfl (by decide) (by decide) 4294967288 (by decide) 0⟩

/-- A request of `2 ^ 32 - 8` bytes has size `0`: with no free runs, the
    free end does not move, and a second such request gets the same object. -/
theorem alloc_same_object_twice (s : FreeListSpace) (hs : s.free_blocks = [])
    (temp_addr temp_addr' : Nat) :
    (s.alloc 4294967288 temp_addr).1 = some (s.end_ - s.free_end.toNat + 8) ∧
      ((s.alloc 4294967288 temp_addr).2.alloc 4294967288 temp_addr').1 =
        (s.alloc 4294967288 temp_addr).1 := by
  have hzero : allocationSize 4294967288 = 0 := by decide
  have hroom : ∀ t : FreeListSpace, allocationSize 4294967288 ≤ t.free_end := by
    intro t
    rw [hzero]
    exact UInt32.zero_le
  rw [alloc_of_end (lowerBound_nil hs _) (hroom s)]
  dsimp only
  -- the first block leaves the set and the free end as they were
  rw [alloc_of_end (lowerBound_nil (by exact hs) _) (hroom _)]
  simp only [setHeader, hzero, UInt32.sub_zero]
  exact ⟨rfl, trivial⟩

end FreeListSpace

end Gc

end ArtRuntime
