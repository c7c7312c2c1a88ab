import ArtRuntime.Base.Leb128
import ArtRuntime.Dex.Find

/-!
# Code Items: Try Items and Catch Handlers

A code item with `tries_size_` try items keeps, after its instructions, the
try items (a start address, an instruction count and a handler offset each)
and then a list of `encoded_catch_handler`s: a signed LEB128 size, that many
(type index, address) pairs, and a catch-all address when the size is not
positive. `DexFileVerifier::CheckIntraCodeItem` checks the handlers
(`CheckAndGetHandlerOffsets`, which also records where each begins) and then
the try items: in order, inside the code, each pointing at a recorded
handler.

At run time `CatchHandlerIterator(code_item, address)` finds the try item that
covers an address (directly for one try item, else by the binary search
`FindTryItem`) and walks its handler; `MethodVerifier::ScanTryCatchBlocks`
walks every handler in turn, each starting where the last one's iterator
stopped (`EndDataPointer`).

The iterator keeps a handler's type index as a `uint16_t`, while the verifier
checks the encoded `uint32_t` index only against the header's
`type_ids_size_`. With more than `65536` type ids, a verified handler for type
`65536` is walked as type `0` (`catchHandlerIterator_truncates_type_idx`). The
iterator yields exactly the encoded pairs with the type index cut to its low
16 bits (`catchHandlerIterator_yields`), which is the encoded index whenever
`type_ids_size_ ≤ 65536`.

The model keeps a code item's parts as lists: the try items, and the bytes
from `GetCatchHandlerData(code_item, 0)` on, indexed from `0`. The pointer
checks that place those parts in the file (`CheckPointerRange`,
`CheckListSize`, the padding) are left out. A read past the end of the bytes
is `none`: a rejection for the verifier, where the source reads on.

## Main definitions

* `DexFile.TryItem`, `DexFile.CodeItem`: A code item with its try items and
  handler bytes.
* `DexFile.findTryItemLoop`, `DexFile.findTryItem`,
  `DexFile.findCatchHandlerOffset`: The binary search for an address.
* `DexFile.EncodedCatchHandler`, `DexFile.encodedCatchHandler`: What a
  handler encodes, and the bytes read as one.
* `DexFile.CatchHandlerIterator`: The iterator's fields, `next`, `hasNext`,
  its constructors, and `handlers`, the walk of an iterator to its end.
* `DexFileVerifier.checkAndGetHandlerOffsets`, `checkTryItems`,
  `checkIntraCodeItem`: The verifier's checks.
* `MethodVerifier.scanHandlers`, `scanTryCatchBlocks`: The method verifier's
  walk of the try items and the handlers.

## Theorems

* `DexFile.findTryItemLoop_eq_search`: `FindTryItem`'s loop is the
  library's search with `FindTryItem`'s comparison.
* `DexFile.findTryItem_spec`: On ordered try items, `FindTryItem` finds the
  one that covers an address, or returns `-1`.
* `DexFile.CatchHandlerIterator.handlers_initData`: An iterator on an encoded
  handler yields the handler's pairs, then its catch-all, and stops at its
  end.
* `DexFileVerifier.checkIntraCodeItem_spec`: The verifier's order of try
  items, and each one's handler accepted.
* `MethodVerifier.scanHandlers_visits`: The scan starts an iterator at each
  offset the verifier recorded, in order.
* `DexFile.catchHandlerIterator_yields`: On a verified code item, the
  iterator for an address yields the handler of the try item covering it, or
  nothing, and the scan visits the verifier's handlers.
* `DexFile.catchHandlerIterator_truncates_type_idx`: A verified handler for
  type `65536` is walked as type `0`.
-/

namespace ArtRuntime

namespace DexFile

open Leb128 BinarySearch

/-- A `DexFile::TryItem`. -/
structure TryItem where
  start_addr_ : UInt32
  insn_count_ : UInt16
  handler_off_ : UInt16
  deriving Inhabited, DecidableEq

/-- A `DexFile::CodeItem`: its header fields, the try items `GetTryItems`
    points at, and the bytes from `GetCatchHandlerData(code_item, 0)` on.
    `tries_size_` is the number of try items, a `uint16_t`. -/
structure CodeItem where
  registers_size_ : UInt16
  ins_size_ : UInt16
  outs_size_ : UInt16
  insns_size_in_code_units_ : UInt32
  tries : List TryItem
  handler_data : List UInt8
  tries_lt : tries.length < 65536

/-- `DexFile::GetTryItems(code_item, offset)`. -/
def getTryItems (code_item : CodeItem) (offset : Nat) : TryItem :=
  code_item.tries.getD offset default

/-! ### FindTryItem -/

/-- The loop of `FindTryItem`, between the `int32_t` bounds `min` and `max`. -/
def findTryItemLoop (code_item : CodeItem) (address : UInt32) (min max : Int) : Int :=
  if min ≤ max then
    -- `max - min` is not negative, where C's division and Lean's agree
    let mid := min + (max - min) / 2
    let ti := getTryItems code_item mid.toNat
    let start := ti.start_addr_
    let end_ := start + ti.insn_count_.toUInt32
    if address < start then findTryItemLoop code_item address min (mid - 1)
    else if address ≥ end_ then findTryItemLoop code_item address (mid + 1) max
    else mid
  else -1
termination_by (max + 1 - min).toNat

/-- `DexFile::FindTryItem`: the index of the try item that covers `address`,
    or `-1`. -/
def findTryItem (code_item : CodeItem) (address : UInt32) : Int :=
  findTryItemLoop code_item address 0 (code_item.tries.length - 1)

/-- `DexFile::FindCatchHandlerOffset`. -/
def findCatchHandlerOffset (code_item : CodeItem) (address : UInt32) : Int :=
  let try_item := findTryItem code_item address
  if try_item = -1 then -1 else (getTryItems code_item try_item.toNat).handler_off_.toNat

/-- How `FindTryItem` places an address against a try item: before it, past
    its `uint32_t` end, or inside. -/
def compareTry (address : UInt32) (ti : TryItem) : Ordering :=
  if address < ti.start_addr_ then .lt
  else if address ≥ ti.start_addr_ + ti.insn_count_.toUInt32 then .gt
  else .eq

/-- `FindTryItem`'s loop is the library's search with `compareTry`: the two
    midpoints agree while `min` is not negative. -/
theorem findTryItemLoop_eq_search (code_item : CodeItem) (address : UInt32) {min max : Int}
    (h0 : 0 ≤ min) :
    findTryItemLoop code_item address min max =
      ((search (getTryItems code_item) (compareTry address) min max).map (fun i : Nat => (i : Int))).getD
        (-1) := by
  induction min, max using findTryItemLoop.induct code_item address with
  | case1 min max hle mid ti start hlt ih =>
    -- the address is before the try item at mid: both go left
    have hmid : (max + min) / 2 = min + (max - min) / 2 := by omega
    have hlt' : address < (getTryItems code_item (min + (max - min) / 2).toNat).start_addr_ := hlt
    rw [findTryItemLoop, search, if_pos hle, if_pos hle, hmid]
    simp only [compareTry, if_pos hlt']
    exact ih h0
  | case2 min max hle mid ti start end_ hlt hge ih =>
    -- past its end: both go right
    have hmid : (max + min) / 2 = min + (max - min) / 2 := by omega
    have hlt' : ¬ address < (getTryItems code_item (min + (max - min) / 2).toNat).start_addr_ := hlt
    have hge' : address ≥ (getTryItems code_item (min + (max - min) / 2).toNat).start_addr_ +
        (getTryItems code_item (min + (max - min) / 2).toNat).insn_count_.toUInt32 := hge
    rw [findTryItemLoop, search, if_pos hle, if_pos hle, hmid]
    simp only [compareTry, if_neg hlt', if_pos hge']
    exact ih (by omega)
  | case3 min max hle mid ti start end_ hlt hge =>
    -- inside it: both answer mid
    have hmid : (max + min) / 2 = min + (max - min) / 2 := by omega
    have hlt' : ¬ address < (getTryItems code_item (min + (max - min) / 2).toNat).start_addr_ := hlt
    have hge' : ¬ address ≥ (getTryItems code_item (min + (max - min) / 2).toNat).start_addr_ +
        (getTryItems code_item (min + (max - min) / 2).toNat).insn_count_.toUInt32 := hge
    rw [findTryItemLoop, search, if_pos hle, if_pos hle, hmid]
    simp only [compareTry, if_neg hlt', if_neg hge', Option.map_some, Option.getD_some]
    omega
  | case4 min max hgt =>
    rw [findTryItemLoop, if_neg hgt, search, if_neg hgt]
    rfl

/-! ### The verifier's order of try items -/

/-- The end of a try item's range, as a number. -/
def TryItem.endAddr (ti : TryItem) : Nat :=
  ti.start_addr_.toNat + ti.insn_count_.toNat

/-- A try item covers an address. -/
def TryItem.Covers (ti : TryItem) (address : UInt32) : Prop :=
  ti.start_addr_.toNat ≤ address.toNat ∧ address.toNat < ti.endAddr

/-- Try items in the order the verifier checks: each starts at or after the
    end of every one before it. -/
def TriesOrdered (tries : List TryItem) : Prop :=
  tries.Pairwise fun a b => a.endAddr ≤ b.start_addr_.toNat

section Compare

variable {address : UInt32} {ti : TryItem}

/-- Without wrap-around, the `uint32_t` end is the end. -/
theorem toNat_end (hwrap : ti.endAddr < 2 ^ 32) :
    (ti.start_addr_ + ti.insn_count_.toUInt32).toNat = ti.endAddr := by
  rw [UInt32.toNat_add, UInt16.toNat_toUInt32]
  exact Nat.mod_eq_of_lt hwrap

theorem compareTry_eq_lt_iff : compareTry address ti = .lt ↔ address.toNat < ti.start_addr_.toNat := by
  unfold compareTry
  split_ifs with h1 h2
  · exact ⟨fun _ => UInt32.lt_iff_toNat_lt.mp h1, fun _ => rfl⟩
  · rw [UInt32.lt_iff_toNat_lt] at h1
    exact ⟨(fun e => by cases e), fun e => absurd e h1⟩
  · rw [UInt32.lt_iff_toNat_lt] at h1
    exact ⟨(fun e => by cases e), fun e => absurd e h1⟩

theorem compareTry_eq_gt_iff (hwrap : ti.endAddr < 2 ^ 32) :
    compareTry address ti = .gt ↔ ti.endAddr ≤ address.toNat := by
  unfold compareTry
  have hend := toNat_end hwrap
  split_ifs with h1 h2
  · rw [UInt32.lt_iff_toNat_lt] at h1
    exact ⟨(fun e => by cases e), fun h => by unfold TryItem.endAddr at h; omega⟩
  · rw [ge_iff_le, UInt32.le_iff_toNat_le, hend] at h2
    exact ⟨fun _ => h2, fun _ => rfl⟩
  · rw [ge_iff_le, UInt32.le_iff_toNat_le, hend] at h2
    exact ⟨(fun e => by cases e), fun e => absurd e h2⟩

theorem compareTry_eq_eq_iff (hwrap : ti.endAddr < 2 ^ 32) :
    compareTry address ti = .eq ↔ ti.Covers address := by
  unfold compareTry TryItem.Covers
  have hend := toNat_end hwrap
  split_ifs with h1 h2
  · rw [UInt32.lt_iff_toNat_lt] at h1
    exact ⟨(fun e => by cases e), fun h => by omega⟩
  · rw [ge_iff_le, UInt32.le_iff_toNat_le, hend] at h2
    exact ⟨(fun e => by cases e), fun h => by omega⟩
  · rw [UInt32.lt_iff_toNat_lt] at h1
    rw [ge_iff_le, UInt32.le_iff_toNat_le, hend] at h2
    exact ⟨fun _ => ⟨by omega, by omega⟩, fun _ => rfl⟩

end Compare

section Order

variable {code_item : CodeItem} {address : UInt32}

/-- In an ordered list, an earlier try item ends before a later one starts. -/
theorem TriesOrdered.end_le_start (hord : TriesOrdered code_item.tries) {i j : Nat} (hij : i < j)
    (hj : j < code_item.tries.length) :
    (getTryItems code_item i).endAddr ≤ (getTryItems code_item j).start_addr_.toNat := by
  unfold getTryItems
  rw [List.getD_eq_getElem _ _ (by omega), List.getD_eq_getElem _ _ hj]
  exact List.pairwise_iff_getElem.mp hord i j (by omega) hj hij

/-- Ordered try items without wrap-around split the table for every
    address: those it is past, at most one that covers it, those it is
    before. -/
theorem splits_of_triesOrdered (hord : TriesOrdered code_item.tries)
    (hwrap : ∀ i, i < code_item.tries.length → (getTryItems code_item i).endAddr < 2 ^ 32) :
    Splits (getTryItems code_item) (compareTry address) code_item.tries.length := by
  -- the end of an item is at or after its start
  have hse : ∀ i, (getTryItems code_item i).start_addr_.toNat ≤ (getTryItems code_item i).endAddr :=
    fun i => Nat.le_add_right _ _
  refine ⟨fun i j hij hj hgt => ?_, fun i j hij hj hlt => ?_, fun i j hi hj hei hej => ?_⟩
  · -- past item `j`, so past every item before it
    rw [compareTry_eq_gt_iff (hwrap j hj)] at hgt
    rw [compareTry_eq_gt_iff (hwrap i (by omega))]
    rcases Nat.lt_or_eq_of_le hij with hlt | rfl
    · have := hord.end_le_start hlt hj
      have := hse j
      omega
    · exact hgt
  · -- before item `i`, so before every item after it
    rw [compareTry_eq_lt_iff] at hlt ⊢
    rcases Nat.lt_or_eq_of_le hij with hlt' | rfl
    · have := hord.end_le_start hlt' hj
      have := hse i
      omega
    · exact hlt
  · -- two items that both cover the address overlap
    rw [compareTry_eq_eq_iff (hwrap i hi)] at hei
    rw [compareTry_eq_eq_iff (hwrap j hj)] at hej
    rcases Nat.lt_trichotomy i j with hlt | heq | hgt
    · have := hord.end_le_start hlt hj
      exact absurd hei.2 (by have := hej.1; omega)
    · exact heq
    · have := hord.end_le_start hgt hi
      exact absurd hej.2 (by have := hei.1; omega)

/-- `FindTryItem` on ordered try items without wrap-around returns the index
    of the one that covers the address, and `-1` when none does. -/
theorem findTryItem_spec (hord : TriesOrdered code_item.tries)
    (hwrap : ∀ i, i < code_item.tries.length → (getTryItems code_item i).endAddr < 2 ^ 32) :
    (∀ i : Nat, findTryItem code_item address = i ↔
      i < code_item.tries.length ∧ (getTryItems code_item i).Covers address) ∧
    (findTryItem code_item address = -1 ↔
      ∀ i, i < code_item.tries.length → ¬ (getTryItems code_item i).Covers address) := by
  have hsplit : Splits (getTryItems code_item) (compareTry address) code_item.tries.length :=
    splits_of_triesOrdered hord hwrap
  have hloc := binarySearch_locates_of_splits hsplit
  have hfind : findTryItem code_item address =
      ((binarySearch (getTryItems code_item) (compareTry address) code_item.tries.length).map
        (fun i : Nat => (i : Int))).getD (-1) :=
    findTryItemLoop_eq_search code_item address (Int.le_refl 0)
  -- `eq` is covering, for every item of the table
  have hP : ∀ i, i < code_item.tries.length →
      (compareTry address (getTryItems code_item i) = .eq ↔ (getTryItems code_item i).Covers address) :=
    fun i hi => compareTry_eq_eq_iff (hwrap i hi)
  have hloc' := hloc.of_iff hP
  rw [hfind]
  constructor
  · intro i
    rw [← hloc'.1 i]
    cases binarySearch (getTryItems code_item) (compareTry address) code_item.tries.length with
    | none => simp only [Option.map_none, Option.getD_none, reduceCtorEq]
    | some j => simp only [Option.map_some, Option.getD_some, Option.some.injEq]; omega
  · rw [← hloc'.2]
    cases binarySearch (getTryItems code_item) (compareTry address) code_item.tries.length with
    | none => simp only [Option.map_none, Option.getD_none]
    | some j => simp only [Option.map_some, Option.getD_some, reduceCtorEq]

end Order

/-! ### Encoded catch handlers -/

/-- What an `encoded_catch_handler` says: its size, the (type index, address)
    pairs, and the catch-all address that follows them when the size is not
    positive. -/
structure EncodedCatchHandler where
  size : Int32
  handlers : List (UInt32 × UInt32)
  catch_all_addr : Option UInt32

/-- `k` (type index, address) pairs. -/
def decodePairs (data : List UInt8) : Nat → Nat → Option (List (UInt32 × UInt32) × Nat)
  | 0, p => some ([], p)
  | k + 1, p => do
    let (type_idx, p) ← decodeUnsignedLeb128 data p
    let (address, p) ← decodeUnsignedLeb128 data p
    let (rest, p) ← decodePairs data k p
    pure ((type_idx, address) :: rest, p)

/-- The catch-all address, when there is one. -/
def decodeCatchAll (data : List UInt8) (catch_all : Bool) (p : Nat) : Option (Option UInt32 × Nat) :=
  if catch_all then (decodeUnsignedLeb128 data p).map fun (address, p) => (some address, p)
  else some (none, p)

/-- The `encoded_catch_handler` at `ptr`, and the position after it. -/
def encodedCatchHandler (data : List UInt8) (ptr : Nat) : Option (EncodedCatchHandler × Nat) := do
  let (size, p) ← decodeSignedLeb128 data ptr
  let (handlers, p) ← decodePairs data size.toInt.natAbs p
  let (catch_all_addr, p) ← decodeCatchAll data (size ≤ 0) p
  pure (⟨size, handlers, catch_all_addr⟩, p)

/-- The pairs an iterator is to yield for typed handlers and a catch-all:
    each type index as a `uint16_t`, and `kDexNoIndex16` for the catch-all. -/
def handlerYields (handlers : List (UInt32 × UInt32)) (catch_all_addr : Option UInt32) :
    List (UInt16 × UInt32) :=
  handlers.map (fun (type_idx, address) => (type_idx.toUInt16, address)) ++
    (catch_all_addr.map fun address => (DexFileVerifier.kDexNoIndex16, address)).toList

/-! ### CatchHandlerIterator -/

/-- A `CatchHandlerIterator`: the current handler, `current_data_` (`none` for
    `NULL`), `remaining_count_` and `catch_all_`. -/
structure CatchHandlerIterator where
  type_idx : UInt16
  address : UInt32
  current_data : Option Nat
  remaining_count : Int32
  catch_all : Bool

namespace CatchHandlerIterator

/-- `HasNext`. -/
def hasNext (it : CatchHandlerIterator) : Bool :=
  it.remaining_count != -1 || it.catch_all

/-- `Next`: a typed handler while some remain, then the catch-all, then the
    end. -/
def next (data : List UInt8) (it : CatchHandlerIterator) : Option CatchHandlerIterator :=
  if it.remaining_count > 0 then do
    let p ← it.current_data
    let (type_idx, p) ← decodeUnsignedLeb128 data p
    let (address, p) ← decodeUnsignedLeb128 data p
    pure
      { it with
        type_idx := type_idx.toUInt16
        address
        current_data := some p
        remaining_count := it.remaining_count - 1 }
  else if it.catch_all then do
    let p ← it.current_data
    let (address, p) ← decodeUnsignedLeb128 data p
    pure
      { it with
        type_idx := DexFileVerifier.kDexNoIndex16
        address
        current_data := some p
        catch_all := false }
  else pure { it with remaining_count := -1 }

/-- `Init(const byte* handler_data)`. -/
def initData (data : List UInt8) (it : CatchHandlerIterator) (handler_data : Nat) :
    Option CatchHandlerIterator := do
  let (remaining_count, p) ← decodeSignedLeb128 data handler_data
  -- a count that is not positive is minus the number of typed handlers, and a
  -- catch-all follows them
  let it : CatchHandlerIterator :=
    if remaining_count ≤ 0 then
      { it with current_data := some p, remaining_count := -remaining_count, catch_all := true }
    else { it with current_data := some p, remaining_count, catch_all := false }
  it.next data

/-- `Init(code_item, offset)`: a negative offset is no handler. -/
def initOffset (code_item : CodeItem) (it : CatchHandlerIterator) (offset : Int) :
    Option CatchHandlerIterator :=
  if offset ≥ 0 then initData code_item.handler_data it offset.toNat
  else some { it with current_data := none, remaining_count := -1, catch_all := false }

/-- An iterator as its constructors begin it, with `handler_.address_ = -1`;
    `Init` sets the other fields before they are read. -/
def blank : CatchHandlerIterator :=
  ⟨0, 0xFFFFFFFF, none, 0, false⟩

/-- `CatchHandlerIterator(code_item, address)`: the fast paths for no try
    item and for one, else `FindCatchHandlerOffset`. -/
def ofAddress (code_item : CodeItem) (address : UInt32) : Option CatchHandlerIterator :=
  let offset : Int :=
    match code_item.tries.length with
    | 0 => -1
    | 1 =>
      let tries := getTryItems code_item 0
      let start := tries.start_addr_
      if address ≥ start then
        let end_ := start + tries.insn_count_.toUInt32
        if address < end_ then tries.handler_off_.toNat else -1
      else -1
    | _ => findCatchHandlerOffset code_item address
  initOffset code_item blank offset

/-- `CatchHandlerIterator(handler_data)`. -/
def ofData (data : List UInt8) (handler_data : Nat) : Option CatchHandlerIterator :=
  initData data blank handler_data

/-- What is left for the iterator to do: two steps per typed handler, one
    for the catch-all, and one to stop. -/
def pending (it : CatchHandlerIterator) : Nat :=
  2 * it.remaining_count.toInt.toNat + (if it.catch_all then 1 else 0) +
    (if it.remaining_count = -1 then 0 else 1)

theorem toInt_sub_one {r : Int32} (h : 0 < r.toInt) : (r - 1).toInt = r.toInt - 1 := by
  rw [Int32.toInt_sub, Int32.toInt_one]
  have hmax : r.toInt ≤ 2147483647 := Int32.toInt_le r
  exact Int.bmod_eq_of_le (by omega) (by omega)

/-- `Next` moves the iterator on while `HasNext`. -/
theorem pending_next_lt {data : List UInt8} {it it' : CatchHandlerIterator} (hn : it.hasNext = true)
    (h : it.next data = some it') : it'.pending < it.pending := by
  unfold next at h
  split_ifs at h with hpos hca
  · -- a typed handler: one fewer remains
    rw [gt_iff_lt, Int32.lt_iff_toInt_lt, Int32.toInt_zero] at hpos
    simp only [Option.bind_eq_bind, Option.bind_eq_some_iff, Option.pure_def, Option.some.injEq] at h
    obtain ⟨_, -, _, -, _, -, rfl⟩ := h
    have hsub := toInt_sub_one hpos
    unfold pending
    dsimp only
    rw [hsub]
    split_ifs <;> omega
  · -- the catch-all
    simp only [Option.bind_eq_bind, Option.bind_eq_some_iff, Option.pure_def, Option.some.injEq] at h
    obtain ⟨_, -, _, -, rfl⟩ := h
    unfold pending
    simp only [hca, Bool.false_eq_true, if_true, if_false]
    omega
  · -- the end: `remaining_count_` becomes `-1`
    cases h
    unfold hasNext at hn
    simp only [hca, Bool.or_false, bne_iff_ne, ne_eq] at hn
    unfold pending
    rw [gt_iff_lt, Int32.lt_iff_toInt_lt, Int32.toInt_zero] at hpos
    simp only [hca, hn, if_true, if_false, Bool.false_eq_true]
    have : (-1 : Int32).toInt.toNat = 0 := by decide
    omega

/-- The loop `for (; it.HasNext(); it.Next())`: the handlers it sees, and the
    iterator it stops with, whose `current_data_` is `EndDataPointer`. -/
def handlers (data : List UInt8) (it : CatchHandlerIterator) :
    Option (List (UInt16 × UInt32) × CatchHandlerIterator) :=
  if hn : it.hasNext then
    match h : it.next data with
    | none => none
    | some it' => (handlers data it').map fun (rest, last) => ((it.type_idx, it.address) :: rest, last)
  else some ([], it)
termination_by it.pending
decreasing_by exact pending_next_lt hn h

variable {data : List UInt8} {it : CatchHandlerIterator}

theorem handlers_of_hasNext (hn : it.hasNext = true) :
    handlers data it = ((it.next data).bind (handlers data)).map fun (rest, last) =>
      ((it.type_idx, it.address) :: rest, last) := by
  rw [handlers, dif_pos hn]
  split <;> rename_i heq <;> rw [heq] <;> rfl

theorem handlers_of_not_hasNext (hn : it.hasNext = false) : handlers data it = some ([], it) := by
  rw [handlers, dif_neg (by rw [hn]; exact Bool.false_ne_true)]

/-- Once no typed handler and no catch-all is left, `Next` ends the walk
    where it is. -/
theorem handlers_next_of_done (hpos : it.remaining_count.toInt = 0) (hca : it.catch_all = false) :
    (it.next data).bind (handlers data) =
      some ([], { it with remaining_count := -1 }) := by
  have hnot : ¬ it.remaining_count > 0 := by
    rw [gt_iff_lt, Int32.lt_iff_toInt_lt, Int32.toInt_zero]
    omega
  unfold next
  rw [if_neg hnot, if_neg (by rw [hca]; exact Bool.false_ne_true)]
  exact handlers_of_not_hasNext (by simp only [hasNext, hca, Bool.or_false, bne_self_eq_false])

/-- From a state with `k` typed handlers and the catch-all flag left,
    `Next` and the walk yield exactly the encoded pairs that follow, and stop
    after them; by induction on `k`, one typed handler per turn. -/
theorem next_handlers_of_decode (k : Nat) : ∀ {it : CatchHandlerIterator} {p : Nat}
    {pairs : List (UInt32 × UInt32)} {p1 : Nat} {ca : Option UInt32} {q : Nat},
    it.remaining_count.toInt = k → it.current_data = some p →
    decodePairs data k p = some (pairs, p1) → decodeCatchAll data it.catch_all p1 = some (ca, q) →
    ∃ last, (it.next data).bind (handlers data) = some (handlerYields pairs ca, last) ∧
      last.current_data = some q := by
  induction k with
  | zero =>
    intro it p pairs p1 ca q hk hp hpairs hcatch
    rw [Nat.cast_zero] at hk
    simp only [decodePairs, Option.some.injEq, Prod.mk.injEq] at hpairs
    obtain ⟨rfl, rfl⟩ := hpairs
    cases hca : it.catch_all with
    | false =>
      -- no catch-all: the walk ends at once
      simp only [decodeCatchAll, hca, Bool.false_eq_true, if_false, Option.some.injEq,
        Prod.mk.injEq] at hcatch
      obtain ⟨rfl, rfl⟩ := hcatch
      exact ⟨_, handlers_next_of_done hk hca, hp⟩
    | true =>
      -- the catch-all, then the end
      simp only [decodeCatchAll, hca, if_true, Option.map_eq_some_iff, Prod.exists] at hcatch
      obtain ⟨a, q', hd, he⟩ := hcatch
      simp only [Prod.mk.injEq] at he
      obtain ⟨rfl, rfl⟩ := he
      have hnot : ¬ it.remaining_count > 0 := by
        rw [gt_iff_lt, Int32.lt_iff_toInt_lt, Int32.toInt_zero]
        omega
      -- the state after reading the catch-all
      let it1 : CatchHandlerIterator :=
        { it with type_idx := DexFileVerifier.kDexNoIndex16, address := a, current_data := some q',
                  catch_all := false }
      have hnext : it.next data = some it1 := by
        unfold next
        rw [if_neg hnot, if_pos hca, hp]
        simp only [Option.bind_eq_bind, Option.bind_some, hd, Option.pure_def, it1]
      have hn : it1.hasNext = true := by
        simp only [hasNext, it1, Bool.or_false, bne_iff_ne, ne_eq]
        intro h1
        rw [h1] at hk
        cases hk
      have hk1 : it1.remaining_count.toInt = 0 := hk
      rw [hnext, Option.bind_some, handlers_of_hasNext hn, handlers_next_of_done hk1 rfl]
      exact ⟨_, rfl, rfl⟩
  | succ k ih =>
    intro it p pairs p1 ca q hk hp hpairs hcatch
    -- one typed handler
    simp only [decodePairs, Option.bind_eq_bind, Option.bind_eq_some_iff, Option.pure_def,
      Option.some.injEq, Prod.exists] at hpairs
    obtain ⟨type_idx, p', ht, address, p'', ha, rest, p1', hrest, he⟩ := hpairs
    simp only [Prod.mk.injEq] at he
    obtain ⟨rfl, rfl⟩ := he
    have hpos : it.remaining_count > 0 := by
      rw [gt_iff_lt, Int32.lt_iff_toInt_lt, Int32.toInt_zero]
      omega
    have hsub := toInt_sub_one (r := it.remaining_count) (by omega)
    -- the state after reading the pair
    let it1 : CatchHandlerIterator :=
      { it with type_idx := type_idx.toUInt16, address, current_data := some p'',
                remaining_count := it.remaining_count - 1 }
    have hnext : it.next data = some it1 := by
      unfold next
      rw [if_pos hpos, hp]
      simp only [Option.bind_eq_bind, Option.bind_some, ht, ha, Option.pure_def, it1]
    have hk1 : it1.remaining_count.toInt = k := by
      simp only [it1]
      omega
    have hn : it1.hasNext = true := by
      simp only [hasNext, Bool.or_eq_true, bne_iff_ne, ne_eq]
      refine Or.inl fun h1 => ?_
      have : it1.remaining_count.toInt = -1 := by rw [h1]; rfl
      omega
    obtain ⟨last, hlast, hq⟩ := ih hk1 rfl hrest hcatch
    rw [hnext, Option.bind_some, handlers_of_hasNext hn, hlast]
    exact ⟨last, rfl, hq⟩

theorem toInt_neg_of_gt {r : Int32} (h : -2147483648 < r.toInt) : (-r).toInt = -r.toInt := by
  rw [Int32.toInt_neg]
  have hmax : r.toInt ≤ 2147483647 := Int32.toInt_le r
  exact Int.bmod_eq_of_le (by omega) (by omega)

/-- `Init` on an encoded handler: the walk yields the handler's pairs, then its
    catch-all, and stops at the end of the handler. -/
theorem handlers_initData {ptr q : Nat} {e : EncodedCatchHandler}
    (h : encodedCatchHandler data ptr = some (e, q)) (hsize : -65536 ≤ e.size.toInt) :
    ∃ last, (initData data it ptr).bind (handlers data) =
      some (handlerYields e.handlers e.catch_all_addr, last) ∧ last.current_data = some q := by
  unfold encodedCatchHandler at h
  simp only [Option.bind_eq_bind, Option.bind_eq_some_iff, Option.pure_def, Option.some.injEq,
    Prod.exists] at h
  obtain ⟨size, p, hs, hand, p1, hpairs, ca, q', hcatch, he⟩ := h
  simp only [Prod.mk.injEq] at he
  obtain ⟨rfl, rfl⟩ := he
  unfold initData
  rw [hs]
  simp only [Option.bind_eq_bind, Option.bind_some]
  dsimp only at hsize ⊢
  by_cases hneg : size ≤ 0
  · -- a catch-all follows `-size` typed handlers
    rw [if_pos hneg]
    have hle : size.toInt ≤ 0 := by rwa [Int32.le_iff_toInt_le, Int32.toInt_zero] at hneg
    refine next_handlers_of_decode size.toInt.natAbs ?_ rfl hpairs ?_
    · rw [toInt_neg_of_gt (by omega)]
      omega
    · simpa only [hneg, decide_true] using hcatch
  · rw [if_neg hneg]
    have hgt : 0 < size.toInt := by
      rw [Int32.le_iff_toInt_le, Int32.toInt_zero] at hneg
      omega
    refine next_handlers_of_decode size.toInt.natAbs ?_ rfl hpairs ?_
    · dsimp only
      omega
    · simpa only [hneg, decide_false] using hcatch

end CatchHandlerIterator

end DexFile

/-! ### The verifier -/

namespace DexFileVerifier

open Leb128 DexFile

/-- `DexFileVerifier::CheckIndex`; the text it logs is left out. -/
def checkIndex (field limit : UInt32) : Bool :=
  field < limit

/-- The typed handlers of one handler, `while (size-- > 0)`: each type index
    against `type_ids_size_` and each address against the code. -/
def checkHandlerPairs (code_item : CodeItem) (type_ids_size : UInt32) : Nat → Nat → Option Nat
  | 0, ptr => some ptr
  | k + 1, ptr => do
    let (type_idx, ptr) ← decodeUnsignedLeb128 code_item.handler_data ptr
    if !checkIndex type_idx type_ids_size then none
    else do
      let (addr, ptr) ← decodeUnsignedLeb128 code_item.handler_data ptr
      if addr ≥ code_item.insns_size_in_code_units_ then none
      else checkHandlerPairs code_item type_ids_size k ptr

/-- One handler of `CheckAndGetHandlerOffsets`: a size of at most `65536`
    either way, the typed handlers, and the catch-all address. -/
def checkHandler (code_item : CodeItem) (type_ids_size : UInt32) (ptr : Nat) : Option Nat := do
  let (size, ptr) ← decodeSignedLeb128 code_item.handler_data ptr
  if size < -65536 ∨ size > 65536 then none
  else do
    let catch_all := decide (size ≤ 0)
    let size := if size ≤ 0 then -size else size
    let ptr ← checkHandlerPairs code_item type_ids_size size.toInt.toNat ptr
    if catch_all then do
      let (addr, ptr) ← decodeUnsignedLeb128 code_item.handler_data ptr
      if addr ≥ code_item.insns_size_in_code_units_ then none else pure ptr
    else pure ptr

/-- `DexFileVerifier::CheckAndGetHandlerOffsets`: the handlers one after the
    other, with the offset at which each begins. -/
def checkAndGetHandlerOffsets (code_item : CodeItem) (type_ids_size : UInt32) :
    Nat → Nat → Option (List Nat)
  | 0, _ => some []
  | i + 1, ptr => do
    let next ← checkHandler code_item type_ids_size ptr
    let rest ← checkAndGetHandlerOffsets code_item type_ids_size i next
    pure (ptr :: rest)

/-- The try item loop of `CheckIntraCodeItem`: each item starts at or after
    the end of the last, inside the code, at a handler offset, and ends
    inside the code; the end is a `uint32_t` sum. -/
def checkTryItems (code_item : CodeItem) (handler_offsets : List Nat) : UInt32 → List TryItem → Bool
  | _, [] => true
  | last_addr, ti :: tis =>
    if ti.start_addr_ < last_addr then false
    else if ti.start_addr_ ≥ code_item.insns_size_in_code_units_ then false
    else if ti.handler_off_.toNat ∉ handler_offsets then false
    else
      let last_addr := ti.start_addr_ + ti.insn_count_.toUInt32
      if last_addr > code_item.insns_size_in_code_units_ then false
      else checkTryItems code_item handler_offsets last_addr tis

/-- `DexFileVerifier::CheckIntraCodeItem`, with the checks that place the
    code item's parts in the file left out. -/
def checkIntraCodeItem (code_item : CodeItem) (type_ids_size : UInt32) : Bool :=
  if code_item.ins_size_ > code_item.registers_size_ then false
  else if code_item.outs_size_ > 5 ∧ code_item.outs_size_ > code_item.registers_size_ then false
  else if code_item.tries.length = 0 then true
  else
    match decodeUnsignedLeb128 code_item.handler_data 0 with
    | none => false
    | some (handlers_size, ptr) =>
      if handlers_size = 0 ∨ handlers_size ≥ 65536 then false
      else
        match checkAndGetHandlerOffsets code_item type_ids_size handlers_size.toNat ptr with
        | none => false
        | some handler_offsets => checkTryItems code_item handler_offsets 0 code_item.tries

section Spec

variable {code_item : CodeItem} {type_ids_size : UInt32}

/-- The typed handlers the verifier accepts decode as pairs with checked
    indices and addresses. -/
theorem checkHandlerPairs_spec {k p q : Nat} (h : checkHandlerPairs code_item type_ids_size k p = some q) :
    ∃ pairs, decodePairs code_item.handler_data k p = some (pairs, q) ∧
      ∀ pr ∈ pairs, pr.1 < type_ids_size ∧ pr.2 < code_item.insns_size_in_code_units_ := by
  induction k generalizing p with
  | zero =>
    cases h
    exact ⟨[], rfl, fun _ h => absurd h List.not_mem_nil⟩
  | succ k ih =>
    simp only [checkHandlerPairs, Option.bind_eq_bind, Option.bind_eq_some_iff, Prod.exists] at h
    obtain ⟨type_idx, p1, ht, h⟩ := h
    split at h
    · cases h
    rename_i hidx
    simp only [Option.bind_eq_some_iff, Prod.exists] at h
    obtain ⟨addr, p2, ha, h⟩ := h
    split at h
    · cases h
    rename_i haddr
    obtain ⟨pairs, hpairs, hall⟩ := ih h
    refine ⟨(type_idx, addr) :: pairs, ?_, ?_⟩
    · simp only [decodePairs, ht, ha, hpairs, Option.bind_eq_bind, Option.bind_some, Option.pure_def]
    · intro pr hpr
      rcases List.mem_cons.mp hpr with rfl | hpr
      · simp only [checkIndex, Bool.not_eq_true', decide_eq_false_iff_not, not_not] at hidx
        exact ⟨hidx, UInt32.not_le.mp haddr⟩
      · exact hall pr hpr

/-- A handler the verifier accepts is an encoded handler of at most `65536`
    typed pairs, whose type indices are below `type_ids_size_` and whose
    addresses are inside the code. -/
theorem checkHandler_spec {ptr q : Nat} (h : checkHandler code_item type_ids_size ptr = some q) :
    ∃ e, encodedCatchHandler code_item.handler_data ptr = some (e, q) ∧ -65536 ≤ e.size.toInt ∧
      (∀ pr ∈ e.handlers, pr.1 < type_ids_size ∧ pr.2 < code_item.insns_size_in_code_units_) ∧
      ∀ a ∈ e.catch_all_addr, a < code_item.insns_size_in_code_units_ := by
  simp only [checkHandler, Option.bind_eq_bind, Option.bind_eq_some_iff, Prod.exists] at h
  obtain ⟨size, p1, hs, h⟩ := h
  split at h
  · cases h
  rename_i hrange
  have hlo : -65536 ≤ size.toInt := by
    have : ¬ size < -65536 := fun h' => hrange (Or.inl h')
    rw [Int32.lt_iff_toInt_lt] at this
    simp only [Int32.reduceToInt] at this
    omega
  simp only [Option.bind_eq_some_iff] at h
  obtain ⟨p2, hpairs, h⟩ := h
  -- the loop runs `|size|` times
  have hcount : (if size ≤ 0 then -size else size).toInt.toNat = size.toInt.natAbs := by
    split
    · rename_i hneg
      rw [CatchHandlerIterator.toInt_neg_of_gt (by omega)]
      rw [Int32.le_iff_toInt_le, Int32.toInt_zero] at hneg
      omega
    · rename_i hpos
      rw [Int32.le_iff_toInt_le, Int32.toInt_zero] at hpos
      omega
  rw [hcount] at hpairs
  obtain ⟨pairs, hdec, hall⟩ := checkHandlerPairs_spec hpairs
  by_cases hneg : size ≤ 0
  · -- the catch-all address follows
    simp only [hneg, decide_true, if_true, Option.bind_eq_some_iff, Prod.exists] at h
    obtain ⟨addr, q', ha, h⟩ := h
    split at h
    · cases h
    rename_i haddr
    cases h
    refine ⟨⟨size, pairs, some addr⟩, ?_, hlo, hall, ?_⟩
    · simp only [encodedCatchHandler, hs, hdec, decodeCatchAll, hneg, decide_true, if_true, ha,
        Option.bind_eq_bind, Option.bind_some, Option.map_some, Option.pure_def]
    · intro a ha'
      cases ha'
      exact UInt32.not_le.mp haddr
  · simp only [hneg, decide_false, Bool.false_eq_true, if_false, Option.pure_def,
      Option.some.injEq] at h
    subst h
    refine ⟨⟨size, pairs, none⟩, ?_, hlo, hall, fun a ha' => by cases ha'⟩
    simp only [encodedCatchHandler, hs, hdec, decodeCatchAll, hneg, decide_false,
      Bool.false_eq_true, if_false, Option.bind_eq_bind, Option.bind_some, Option.pure_def]

/-- Every offset the verifier records begins a handler it accepted. -/
theorem checkHandler_of_mem_offsets {n ptr : Nat} {offsets : List Nat}
    (h : checkAndGetHandlerOffsets code_item type_ids_size n ptr = some offsets) :
    ∀ o ∈ offsets, ∃ q, checkHandler code_item type_ids_size o = some q := by
  induction n generalizing ptr offsets with
  | zero =>
    cases h
    exact fun _ h => absurd h List.not_mem_nil
  | succ n ih =>
    simp only [checkAndGetHandlerOffsets, Option.bind_eq_bind, Option.bind_eq_some_iff,
      Option.pure_def, Option.some.injEq] at h
    obtain ⟨next, hnext, rest, hrest, rfl⟩ := h
    intro o ho
    rcases List.mem_cons.mp ho with rfl | ho
    · exact ⟨next, hnext⟩
    · exact ih hrest o ho

/-- The try items the verifier accepts, when the code leaves room for any
    count past its end: in order, each inside the code and at a recorded
    handler, starting at or after `last_addr`. -/
theorem checkTryItems_spec (hwrap : code_item.insns_size_in_code_units_.toNat + 65536 ≤ 2 ^ 32)
    {offsets : List Nat} {last_addr : UInt32} {tries : List TryItem}
    (h : checkTryItems code_item offsets last_addr tries = true) :
    TriesOrdered tries ∧ ∀ t ∈ tries, last_addr.toNat ≤ t.start_addr_.toNat ∧
      t.start_addr_ < code_item.insns_size_in_code_units_ ∧
      t.endAddr ≤ code_item.insns_size_in_code_units_.toNat ∧ t.handler_off_.toNat ∈ offsets := by
  induction tries generalizing last_addr with
  | nil => exact ⟨List.Pairwise.nil, fun _ h => absurd h List.not_mem_nil⟩
  | cons ti tis ih =>
    unfold checkTryItems at h
    dsimp only at h
    split_ifs at h with h1 h2 h3 h4
    rw [UInt32.lt_iff_toNat_lt] at h1
    rw [gt_iff_lt, UInt32.lt_iff_toNat_lt] at h4
    rw [ge_iff_le, UInt32.le_iff_toNat_le] at h2
    have hcount := UInt16.toNat_lt ti.insn_count_
    -- the `uint32_t` end does not wrap
    have hend : (ti.start_addr_ + ti.insn_count_.toUInt32).toNat = ti.endAddr :=
      toNat_end (by unfold TryItem.endAddr; omega)
    rw [hend] at h4
    obtain ⟨hord, hall⟩ := ih h
    rw [hend] at hall
    refine ⟨List.Pairwise.cons (fun b hb => (hall b hb).1) hord, fun t ht => ?_⟩
    rcases List.mem_cons.mp ht with rfl | ht
    · exact ⟨by omega, UInt32.lt_iff_toNat_lt.mpr (by omega), by omega, h3⟩
    · obtain ⟨hl, hs, he, ho⟩ := hall t ht
      exact ⟨by unfold TryItem.endAddr at hl; omega, hs, he, ho⟩

/-- What `CheckIntraCodeItem` establishes about the try items, when the code
    leaves room for any count past its end: they are in order, each ends inside
    the code, and each points at a handler the verifier accepted. -/
theorem checkIntraCodeItem_spec (hwrap : code_item.insns_size_in_code_units_.toNat + 65536 ≤ 2 ^ 32)
    (h : checkIntraCodeItem code_item type_ids_size = true) :
    TriesOrdered code_item.tries ∧ ∀ t ∈ code_item.tries,
      t.endAddr ≤ code_item.insns_size_in_code_units_.toNat ∧
      ∃ q, checkHandler code_item type_ids_size t.handler_off_.toNat = some q := by
  unfold checkIntraCodeItem at h
  split_ifs at h with h1 h2 h3
  · -- no try items
    rw [List.length_eq_zero_iff.mp h3]
    exact ⟨List.Pairwise.nil, fun _ h => absurd h List.not_mem_nil⟩
  · split at h
    · cases h
    · next handlers_size ptr hdec =>
      split_ifs at h with h4
      split at h
      · cases h
      · next offsets hoff =>
        obtain ⟨hord, hall⟩ := checkTryItems_spec hwrap h
        exact ⟨hord, fun t ht =>
          ⟨(hall t ht).2.2.1, checkHandler_of_mem_offsets hoff _ (hall t ht).2.2.2⟩⟩

/-- A code item with try items that the verifier accepts has a handler list
    the verifier delimited. -/
theorem checkIntraCodeItem_handlers (h : checkIntraCodeItem code_item type_ids_size = true)
    (htries : code_item.tries ≠ []) :
    ∃ handlers_size ptr offsets,
      decodeUnsignedLeb128 code_item.handler_data 0 = some (handlers_size, ptr) ∧
      checkAndGetHandlerOffsets code_item type_ids_size handlers_size.toNat ptr = some offsets := by
  unfold checkIntraCodeItem at h
  split_ifs at h with h1 h2 h3
  · exact absurd (List.length_eq_zero_iff.mp h3) htries
  · split at h
    · cases h
    · next handlers_size ptr hdec =>
      split_ifs at h with h4
      split at h
      · cases h
      · next offsets hoff => exact ⟨handlers_size, ptr, offsets, hdec, hoff⟩

end Spec

end DexFileVerifier

/-! ### Handler lookup on verified code items -/

namespace DexFile

open DexFileVerifier CatchHandlerIterator

section Lookup

variable {code_item : CodeItem} {address : UInt32}

/-- `CatchHandlerIterator(code_item, address)` starts at the handler of a try
    item that covers the address, on ordered try items without wrap-around,
    whichever path it takes. -/
theorem ofAddress_of_covers (hord : TriesOrdered code_item.tries)
    (hwrap : ∀ i, i < code_item.tries.length → (getTryItems code_item i).endAddr < 2 ^ 32)
    {i : Nat} (hi : i < code_item.tries.length) (hc : (getTryItems code_item i).Covers address) :
    ofAddress code_item address =
      initOffset code_item blank (getTryItems code_item i).handler_off_.toNat := by
  unfold ofAddress
  dsimp only
  split
  · next hlen => omega
  · next hlen =>
    -- one try item: the fast path compares with its `uint32_t` end
    obtain rfl : i = 0 := by omega
    have hge : address ≥ (getTryItems code_item 0).start_addr_ :=
      UInt32.le_iff_toNat_le.mpr hc.1
    have hlt : address < (getTryItems code_item 0).start_addr_ +
        (getTryItems code_item 0).insn_count_.toUInt32 := by
      rw [UInt32.lt_iff_toNat_lt, toNat_end (hwrap 0 hi)]
      exact hc.2
    rw [if_pos hge, if_pos hlt]
  · next hlen0 hlen1 =>
    have hfind := ((findTryItem_spec hord hwrap).1 i).mpr ⟨hi, hc⟩
    simp only [findCatchHandlerOffset, hfind, Int.toNat_natCast]
    rw [if_neg (by omega)]

/-- With no try item covering the address, the iterator starts at no
    handler. -/
theorem ofAddress_of_not_covers (hord : TriesOrdered code_item.tries)
    (hwrap : ∀ i, i < code_item.tries.length → (getTryItems code_item i).endAddr < 2 ^ 32)
    (hnone : ∀ i, i < code_item.tries.length → ¬ (getTryItems code_item i).Covers address) :
    ofAddress code_item address = initOffset code_item blank (-1) := by
  unfold ofAddress
  dsimp only
  split
  · rfl
  · next hlen =>
    by_cases hge : address ≥ (getTryItems code_item 0).start_addr_
    · rw [if_pos hge, if_neg]
      intro hlt
      rw [UInt32.lt_iff_toNat_lt, toNat_end (hwrap 0 (by omega))] at hlt
      exact hnone 0 (by omega) ⟨UInt32.le_iff_toNat_le.mp hge, hlt⟩
    · rw [if_neg hge]
  · next hlen0 hlen1 =>
    have hfind := (findTryItem_spec hord hwrap).2.mpr hnone
    simp only [findCatchHandlerOffset, hfind, if_true]

/-- From no handler the walk yields nothing. -/
theorem handlers_initOffset_neg :
    ∃ last, (initOffset code_item blank (-1)).bind (handlers code_item.handler_data) =
      some ([], last) := by
  rw [initOffset, if_neg (by decide), Option.bind_some]
  exact ⟨_, handlers_of_not_hasNext rfl⟩

/-- On a code item the verifier accepts, the iterator for an address walks
    the handler of the try item that covers it, to that handler's end, and
    yields nothing when no try item covers the address. -/
theorem handlers_ofAddress_of_check (code_item : CodeItem) (type_ids_size : UInt32)
    (address : UInt32) (hcheck : checkIntraCodeItem code_item type_ids_size = true)
    (hwrap : code_item.insns_size_in_code_units_.toNat + 65536 ≤ 2 ^ 32) :
    (∀ i, i < code_item.tries.length → (getTryItems code_item i).Covers address →
      ∃ e q last,
        encodedCatchHandler code_item.handler_data (getTryItems code_item i).handler_off_.toNat =
          some (e, q) ∧
        (ofAddress code_item address).bind (handlers code_item.handler_data) =
          some (handlerYields e.handlers e.catch_all_addr, last) ∧
        (∀ pr ∈ e.handlers, pr.1 < type_ids_size ∧ pr.2 < code_item.insns_size_in_code_units_) ∧
        ∀ a ∈ e.catch_all_addr, a < code_item.insns_size_in_code_units_) ∧
    ((∀ i, i < code_item.tries.length → ¬ (getTryItems code_item i).Covers address) →
      ∃ last, (ofAddress code_item address).bind (handlers code_item.handler_data) =
        some ([], last)) := by
  obtain ⟨hord, hall⟩ := checkIntraCodeItem_spec hwrap hcheck
  have hmem : ∀ i, i < code_item.tries.length → getTryItems code_item i ∈ code_item.tries := by
    intro i hi
    unfold getTryItems
    rw [List.getD_eq_getElem _ _ hi]
    exact List.getElem_mem hi
  -- no try item's `uint32_t` end wraps around
  have hwrap' : ∀ i, i < code_item.tries.length → (getTryItems code_item i).endAddr < 2 ^ 32 := by
    intro i hi
    have := (hall _ (hmem i hi)).1
    omega
  refine ⟨fun i hi hc => ?_, fun hnone => ?_⟩
  · obtain ⟨q, hq⟩ := (hall _ (hmem i hi)).2
    obtain ⟨e, he, hsize, hpairs, hca⟩ := checkHandler_spec hq
    obtain ⟨last, hlast, -⟩ := @handlers_initData _ blank _ _ _ he hsize
    refine ⟨e, q, last, he, ?_, hpairs, hca⟩
    rw [ofAddress_of_covers hord hwrap' hi hc, initOffset, if_pos (by omega), Int.toNat_natCast]
    exact hlast
  · rw [ofAddress_of_not_covers hord hwrap' hnone]
    exact handlers_initOffset_neg

end Lookup

end DexFile

/-! ### ScanTryCatchBlocks -/

namespace MethodVerifier

open Leb128 DexFile DexFileVerifier CatchHandlerIterator

/-- The handler loop of `MethodVerifier::ScanTryCatchBlocks`: an iterator at
    each handler in turn, the next one starting at the last one's
    `EndDataPointer`; each handler it starts at, with what its iterator
    yields. -/
def scanHandlers (data : List UInt8) : Nat → Nat → Option (List (Nat × List (UInt16 × UInt32)))
  | 0, _ => some []
  | idx + 1, handlers_ptr => do
    let iterator ← ofData data handlers_ptr
    let (yields, iterator) ← handlers data iterator
    let end_ptr ← iterator.current_data
    let rest ← scanHandlers data idx end_ptr
    pure ((handlers_ptr, yields) :: rest)

/-- The try item loop of `ScanTryCatchBlocks`: each range not empty, inside
    the code, and starting at an opcode. The `in try` marks it sets are left
    out. -/
def scanTries (is_opcode : Nat → Bool) (insns_size : UInt32) : List TryItem → Bool
  | [] => true
  | try_item :: tries =>
    let start := try_item.start_addr_
    let end_ := start + try_item.insn_count_.toUInt32
    if start ≥ end_ ∨ start ≥ insns_size ∨ end_ > insns_size then false
    else if !is_opcode start.toNat then false
    else scanTries is_opcode insns_size tries

/-- `MethodVerifier::ScanTryCatchBlocks`, with `is_opcode` for
    `insn_flags_[dex_pc].IsOpcode()`; every handler address must start an
    instruction. The branch-target marks and the type resolution are left
    out. -/
def scanTryCatchBlocks (is_opcode : Nat → Bool) (code_item : CodeItem) : Bool :=
  if code_item.tries.length = 0 then true
  else if !scanTries is_opcode code_item.insns_size_in_code_units_ code_item.tries then false
  else
    match decodeUnsignedLeb128 code_item.handler_data 0 with
    | none => false
    | some (handlers_size, handlers_ptr) =>
      match scanHandlers code_item.handler_data handlers_size.toNat handlers_ptr with
      | none => false
      | some visits => visits.all fun (_, yields) => yields.all fun (_, dex_pc) => is_opcode dex_pc.toNat

/-- On a handler list the verifier accepts, the scan starts an iterator at
    exactly the offsets `CheckAndGetHandlerOffsets` recorded, in order, and
    each walks the handler encoded there; by induction on the number of
    handlers, `EndDataPointer` of one being where the verifier began the
    next. -/
theorem scanHandlers_visits {code_item : CodeItem} {type_ids_size : UInt32} {n ptr : Nat}
    {offsets : List Nat} (h : checkAndGetHandlerOffsets code_item type_ids_size n ptr = some offsets) :
    ∃ visits, scanHandlers code_item.handler_data n ptr = some visits ∧
      visits.map Prod.fst = offsets ∧
      ∀ v ∈ visits, ∃ e q, encodedCatchHandler code_item.handler_data v.1 = some (e, q) ∧
        v.2 = handlerYields e.handlers e.catch_all_addr := by
  induction n generalizing ptr offsets with
  | zero =>
    cases h
    exact ⟨[], rfl, rfl, fun _ h => absurd h List.not_mem_nil⟩
  | succ n ih =>
    simp only [checkAndGetHandlerOffsets, Option.bind_eq_bind, Option.bind_eq_some_iff,
      Option.pure_def, Option.some.injEq] at h
    obtain ⟨next, hnext, rest, hrest, rfl⟩ := h
    obtain ⟨e, he, hsize, -, -⟩ := checkHandler_spec hnext
    -- the iterator at `ptr` walks the handler and stops where `next` begins
    obtain ⟨last, hlast, hend⟩ := @handlers_initData _ blank _ _ _ he hsize
    obtain ⟨it0, hit0, hwalk⟩ := Option.bind_eq_some_iff.mp hlast
    obtain ⟨visits, hscan, hmap, hall⟩ := ih hrest
    refine ⟨(ptr, handlerYields e.handlers e.catch_all_addr) :: visits, ?_, ?_, ?_⟩
    · simp only [scanHandlers, ofData, hit0, hwalk, hend, hscan, Option.bind_eq_bind,
        Option.bind_some, Option.pure_def]
    · rw [List.map_cons, hmap]
    · intro v hv
      rcases List.mem_cons.mp hv with rfl | hv
      · exact ⟨e, next, he, rfl⟩
      · exact hall v hv

end MethodVerifier

/-! ### Verified code items -/

namespace DexFile

open Leb128 DexFileVerifier CatchHandlerIterator

/-- On a code item the verifier accepts, for every address the iterator
    walks the handler of the try item that covers it, to that handler's end:
    the encoded pairs with each type index cut to a `uint16_t`, then the
    catch-all, with every type index below `type_ids_size_` and every address
    inside the code; with no try item covering the address it yields nothing.
    And `ScanTryCatchBlocks` starts an iterator at exactly the handlers the
    verifier delimited. The code leaves room for a try item's count past its
    end, as a code item inside a file does. -/
theorem catchHandlerIterator_yields (code_item : CodeItem) (type_ids_size : UInt32)
    (hcheck : checkIntraCodeItem code_item type_ids_size = true)
    (hwrap : code_item.insns_size_in_code_units_.toNat + 65536 ≤ 2 ^ 32) :
    (∀ address : UInt32,
      (∀ i, i < code_item.tries.length → (getTryItems code_item i).Covers address →
        ∃ e q last,
          encodedCatchHandler code_item.handler_data
              (getTryItems code_item i).handler_off_.toNat = some (e, q) ∧
          (ofAddress code_item address).bind (handlers code_item.handler_data) =
            some (handlerYields e.handlers e.catch_all_addr, last) ∧
          (∀ pr ∈ e.handlers, pr.1 < type_ids_size ∧ pr.2 < code_item.insns_size_in_code_units_) ∧
          ∀ a ∈ e.catch_all_addr, a < code_item.insns_size_in_code_units_) ∧
      ((∀ i, i < code_item.tries.length → ¬ (getTryItems code_item i).Covers address) →
        ∃ last, (ofAddress code_item address).bind (handlers code_item.handler_data) =
          some ([], last))) ∧
    (code_item.tries ≠ [] → ∃ handlers_size ptr offsets visits,
      decodeUnsignedLeb128 code_item.handler_data 0 = some (handlers_size, ptr) ∧
      checkAndGetHandlerOffsets code_item type_ids_size handlers_size.toNat ptr = some offsets ∧
      MethodVerifier.scanHandlers code_item.handler_data handlers_size.toNat ptr = some visits ∧
      visits.map Prod.fst = offsets ∧
      ∀ v ∈ visits, ∃ e q, encodedCatchHandler code_item.handler_data v.1 = some (e, q) ∧
        v.2 = handlerYields e.handlers e.catch_all_addr) := by
  refine ⟨fun address => handlers_ofAddress_of_check code_item type_ids_size address hcheck hwrap,
    fun htries => ?_⟩
  obtain ⟨handlers_size, ptr, offsets, hdec, hoff⟩ := checkIntraCodeItem_handlers hcheck htries
  obtain ⟨visits, hscan, hmap, hall⟩ := MethodVerifier.scanHandlers_visits hoff
  exact ⟨handlers_size, ptr, offsets, visits, hdec, hoff, hscan, hmap, hall⟩

/-- A code item of twelve code units under three try items of four each, the
    first and last sharing a handler of a typed pair and a catch-all, the
    middle one with a handler of one typed pair: more than one try item, so
    the iterator goes through `FindCatchHandlerOffset`. -/
def threeTryItem : CodeItem :=
  ⟨1, 0, 0, 12, [⟨0, 4, 1⟩, ⟨4, 4, 5⟩, ⟨8, 4, 1⟩], [2, 0x7f, 0, 1, 2, 1, 0, 5], by decide⟩

theorem catchHandlerIterator_yields_threeTries :
    findCatchHandlerOffset threeTryItem 10 = 1 ∧ findCatchHandlerOffset threeTryItem 6 = 5 ∧
    checkIntraCodeItem threeTryItem 1 = true ∧
    threeTryItem.insns_size_in_code_units_.toNat + 65536 ≤ 2 ^ 32 ∧
    (∀ address : UInt32,
      (∀ i, i < threeTryItem.tries.length → (getTryItems threeTryItem i).Covers address →
        ∃ e q last,
          encodedCatchHandler threeTryItem.handler_data
              (getTryItems threeTryItem i).handler_off_.toNat = some (e, q) ∧
          (ofAddress threeTryItem address).bind (handlers threeTryItem.handler_data) =
            some (handlerYields e.handlers e.catch_all_addr, last) ∧
          (∀ pr ∈ e.handlers, pr.1 < 1 ∧ pr.2 < threeTryItem.insns_size_in_code_units_) ∧
          ∀ a ∈ e.catch_all_addr, a < threeTryItem.insns_size_in_code_units_) ∧
      ((∀ i, i < threeTryItem.tries.length → ¬ (getTryItems threeTryItem i).Covers address) →
        ∃ last, (ofAddress threeTryItem address).bind (handlers threeTryItem.handler_data) =
          some ([], last))) ∧
    (threeTryItem.tries ≠ [] → ∃ handlers_size ptr offsets visits,
      decodeUnsignedLeb128 threeTryItem.handler_data 0 = some (handlers_size, ptr) ∧
      checkAndGetHandlerOffsets threeTryItem 1 handlers_size.toNat ptr = some offsets ∧
      MethodVerifier.scanHandlers threeTryItem.handler_data handlers_size.toNat ptr = some visits ∧
      visits.map Prod.fst = offsets ∧
      ∀ v ∈ visits, ∃ e q, encodedCatchHandler threeTryItem.handler_data v.1 = some (e, q) ∧
        v.2 = handlerYields e.handlers e.catch_all_addr) :=
  ⟨by simp [findCatchHandlerOffset, findTryItem, findTryItemLoop, threeTryItem, getTryItems],
    by simp [findCatchHandlerOffset, findTryItem, findTryItemLoop, threeTryItem, getTryItems],
    by decide, by decide, catchHandlerIterator_yields threeTryItem 1 (by decide) (by decide)⟩

/-- A code item in a file of `65537` type ids, whose one handler is for type
    `65536`. -/
def wideTypeItem : CodeItem :=
  ⟨1, 0, 0, 1, [⟨0, 1, 1⟩], [1, 1, 0x80, 0x80, 0x04, 0], by decide⟩

/-- The verifier accepts the handler for type `65536`, and the iterator at
    address `0` yields it as type `0`. -/
theorem catchHandlerIterator_truncates_type_idx :
    checkIntraCodeItem wideTypeItem 65537 = true ∧
    (encodedCatchHandler wideTypeItem.handler_data 1).map (fun r => r.1.handlers) =
      some [(65536, 0)] ∧
    ∃ last, (ofAddress wideTypeItem 0).bind (handlers wideTypeItem.handler_data) =
      some ([(0, 0)], last) := by
  have he : encodedCatchHandler wideTypeItem.handler_data 1 =
      some (⟨1, [(65536, 0)], none⟩, 6) := rfl
  have hstart : ofAddress wideTypeItem 0 = initData wideTypeItem.handler_data blank 1 := rfl
  obtain ⟨last, hlast, -⟩ := @handlers_initData _ blank _ _ _ he (by decide)
  refine ⟨by decide, by rw [he]; rfl, last, ?_⟩
  rw [hstart, hlast]
  rfl

end DexFile

end ArtRuntime
