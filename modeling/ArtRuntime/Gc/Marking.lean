import Mathlib.Order.Interval.Finset.Nat
import ArtRuntime.Gc.MarkSweep

/-!
# Sequential Marking: MarkObject and ProcessMarkStack

With the mutators suspended, `MarkSweep` marks the roots with `MarkObject` and
then empties the mark stack with `ProcessMarkStack`. `MarkObjectNonNull`
leaves an object of the immune range alone; otherwise it finds the bitmap
that covers the object (the cached `current_mark_bitmap_`, else the first of
the heap's continuous-space bitmaps that has the address), and when the
object's bit is clear it sets it and pushes the object, doubling the stack
first when it is full. An object in no continuous space is marked in the
large object space's mark set instead, and not pushed. On one thread
`ProcessMarkStack` moves up to `kFifoSize` objects at a time from the stack
into a prefetch FIFO and scans the FIFO's front: `ScanObject` calls
`MarkObject` on every reference `ScanObjectVisit` finds in it.

An object is pushed only when its bit goes from clear to set, so at most
once, and the potential `2 * unmarked + stack size` falls with every turn of
the loop (`processMarkStackLoop`'s termination argument). What the loop keeps
is the gray invariant (`MarkInv`): every object that was ever on the stack
is still on it, in the FIFO, or has every reference it holds marked. The
loop ends with both empty, so every object that was ever on the stack has
its references marked (`processMarkStack_marks_closure`), in the heap whose
references all lie in some space.

A bitmap is modelled at the grain of objects: `ArtRuntime.Gc.SpaceBitmap`
has its words and bits, one bit for each 8-byte-aligned object.

## Main definitions

* `MarkBitmap`, `LargeObjects`, `MarkStack`: A continuous space's mark
  bitmap, the large object space, and the mark stack.
* `MarkSweep`: What marking reads and writes.
* `resizeMarkStack`, `expandMarkStack`: Growing the stack.
* `MarkSweep.markLargeObject`, `MarkSweep.markObjectNonNull`,
  `MarkSweep.markObject`, `MarkSweep.isMarked`: Marking one object, and the
  test.
* `Heap`, `scanObjectVisit`, `scanObject`: The references an object holds,
  and scanning it.
* `fillFifo`, `processMarkStackLoop`, `processMarkStack`: The sequential
  branch of `ProcessMarkStack`.
* `MarkSweep.MarkStep`, `MarkSweep.MarkRun`: What one mark and a run of
  marks do.
* `MarkInv`: What marking keeps.

## Theorems

* `resizeMarkStack_entries`: Resizing keeps the entries, in order.
* `markObjectNonNull_step`: What one mark does: the marks only grow, and a
  push is of an object whose bit it set.
* `MarkSweep.markObjectNonNull_ok`: Marking an object of some space
  returns, and marks it.
* `MarkInv.scan`: Scanning an object keeps the invariant and marks its
  references.
* `processMarkStackLoop_spec`: The loop ends with an empty stack and the
  invariant.
* `processMarkStack_marks_closure`: Marking roots and then processing the
  stack ends with an empty stack, each new push once and of an object its
  marking set, and every reference of every object that was on the stack
  marked.
-/

namespace ArtRuntime

namespace Gc

open ClassLinker

/-! ### Bitmaps, the large object space and the mark stack -/

/-- A continuous space's mark bitmap: the addresses it covers,
    `[heap_begin_, heap_limit_)`, and the objects marked in it. -/
structure MarkBitmap where
  heap_begin : Nat
  heap_limit : Nat
  marked : Nat → Bool

instance : Inhabited MarkBitmap := ⟨⟨0, 0, fun _ => false⟩⟩

namespace MarkBitmap

/-- `HasAddress`. -/
def hasAddress (b : MarkBitmap) (obj : Nat) : Bool :=
  decide (b.heap_begin ≤ obj ∧ obj < b.heap_limit)

/-- `Test`. -/
def test (b : MarkBitmap) (obj : Nat) : Bool :=
  b.marked obj

/-- `Set`. -/
def set (b : MarkBitmap) (obj : Nat) : MarkBitmap :=
  { b with marked := fun a => a == obj || b.marked a }

/-- The range a bitmap covers. -/
def bounds (b : MarkBitmap) : Nat × Nat :=
  (b.heap_begin, b.heap_limit)

/-- The addresses the bitmap covers that are not marked. -/
def unmarked (b : MarkBitmap) : Nat :=
  ((Finset.Ico b.heap_begin b.heap_limit).filter fun a => b.marked a = false).card

end MarkBitmap

/-- The large object space: the objects it holds (`Contains`) and its mark
    set (`GetMarkObjects`). -/
structure LargeObjects where
  contains : Nat → Bool
  marked : Nat → Bool

/-- The mark stack: its entries from `Begin()` to `End()`, and its capacity,
    which the entries never pass. -/
structure MarkStack where
  entries : List Nat
  capacity : Nat
  size_le : entries.length ≤ capacity

/-- Why marking stops with `LOG(FATAL)` or a failed `CHECK`. -/
inductive MarkFatal
  /-- "Can't mark bad root": an object in no space. -/
  | badRoot
  /-- "ERROR in pushing back": a push on a full stack. -/
  | pushOverflow
  /-- `CHECK_LE(mark_stack_->Size(), new_size)` in `ResizeMarkStack`. -/
  | resizeTooSmall
  deriving DecidableEq, Repr

namespace MarkStack

/-- `Size`. -/
def size (s : MarkStack) : Nat :=
  s.entries.length

/-- `PushBack`: the `LOG(FATAL)` on a full stack. -/
def pushBack (s : MarkStack) (value : Nat) : Except MarkFatal MarkStack :=
  if h : s.entries.length ≥ s.capacity then .error .pushOverflow
  else .ok ⟨s.entries ++ [value], s.capacity, by rw [List.length_append, List.length_singleton]; omega⟩

/-- `PopBack` on a stack that is not empty. -/
def popBack (s : MarkStack) : Option (Nat × MarkStack) :=
  s.entries.getLast?.map fun obj =>
    (obj, ⟨s.entries.dropLast, s.capacity, by rw [List.length_dropLast]; have := s.size_le; omega⟩)

end MarkStack

/-- `MarkSweep::ResizeMarkStack`: nothing when there is room; otherwise a copy
    of the entries, `Resize` (which empties the stack), and the copy pushed
    back in order. -/
def resizeMarkStack (mark_stack : MarkStack) (new_size : Nat) : Except MarkFatal MarkStack :=
  if mark_stack.size < mark_stack.capacity then .ok mark_stack
  else
    let temp := mark_stack.entries
    if temp.length ≤ new_size then
      temp.foldlM (fun s obj => s.pushBack obj) ⟨[], new_size, Nat.zero_le _⟩
    else .error .resizeTooSmall

/-- `MarkSweep::ExpandMarkStack`: twice the capacity. -/
def expandMarkStack (mark_stack : MarkStack) : Except MarkFatal MarkStack :=
  resizeMarkStack mark_stack (mark_stack.capacity * 2)

/-! ### Marking an object -/

/-- What marking reads and writes of a `MarkSweep` and its heap: the immune
    range, the heap's continuous-space mark bitmaps with
    `current_mark_bitmap_` the index of one of them, the large object space
    (`none` when the heap has none), the mark stack, and `pushed`, every
    object `MarkObjectNonNull` has pushed, in order (a log of the model). -/
structure MarkSweep where
  immune_begin : Nat
  immune_end : Nat
  mark_bitmaps : List MarkBitmap
  current_mark_bitmap : Nat
  large_objects : Option LargeObjects
  mark_stack : MarkStack
  pushed : List Nat

namespace MarkSweep

/-- `IsImmune`. -/
def isImmune (ms : MarkSweep) (obj : Nat) : Bool :=
  decide (ms.immune_begin ≤ obj ∧ obj < ms.immune_end)

/-- The bitmap that covers an object: `current_mark_bitmap_` when it has the
    address, else the first of the heap's bitmaps that has it
    (`GetContinuousSpaceBitmap`). -/
def bitmapIndex (ms : MarkSweep) (obj : Nat) : Option Nat :=
  if (ms.mark_bitmaps.getD ms.current_mark_bitmap default).hasAddress obj then
    some ms.current_mark_bitmap
  else ms.mark_bitmaps.findIdx? fun b => b.hasAddress obj

/-- `IsMarked`: immune, or marked in the bitmap that covers it, or else in the
    large object space's mark set (`HeapBitmap::Test`). -/
def isMarked (ms : MarkSweep) (obj : Nat) : Bool :=
  if ms.isImmune obj then true
  else
    match ms.bitmapIndex obj with
    | some i => (ms.mark_bitmaps.getD i default).test obj
    | none =>
      match ms.large_objects with
      | some large_objects => large_objects.marked obj
      | none => false

/-- `MarkSweep::MarkLargeObject(obj, set)`, with whether it changed the
    mark. Without a large object space it does nothing. -/
def markLargeObject (ms : MarkSweep) (obj : Nat) (set : Bool) :
    Except MarkFatal (MarkSweep × Bool) :=
  match ms.large_objects with
  | none => .ok (ms, false)
  | some large_objects =>
    if !large_objects.marked obj then
      if !large_objects.contains obj then .error .badRoot
      else
        let marked : Nat → Bool :=
          if set then fun a => a == obj || large_objects.marked a
          else fun a => a != obj && large_objects.marked a
        .ok ({ ms with large_objects := some { large_objects with marked } }, true)
    else .ok (ms, false)

/-- `MarkSweep::MarkObjectNonNull`. -/
def markObjectNonNull (ms : MarkSweep) (obj : Nat) : Except MarkFatal MarkSweep :=
  if ms.isImmune obj then .ok ms
  else
    match ms.bitmapIndex obj with
    | none => (ms.markLargeObject obj true).map Prod.fst
    | some i =>
      let object_bitmap := ms.mark_bitmaps.getD i default
      if object_bitmap.test obj then .ok ms
      else do
        let ms := { ms with mark_bitmaps := ms.mark_bitmaps.set i (object_bitmap.set obj) }
        let mark_stack ←
          if ms.mark_stack.size ≥ ms.mark_stack.capacity then expandMarkStack ms.mark_stack
          else pure ms.mark_stack
        let mark_stack ← mark_stack.pushBack obj
        pure { ms with mark_stack, pushed := ms.pushed ++ [obj] }

/-- `MarkSweep::MarkObject`: a null reference is skipped. -/
def markObject (ms : MarkSweep) : Option Nat → Except MarkFatal MarkSweep
  | none => .ok ms
  | some obj => ms.markObjectNonNull obj

/-- The addresses the bitmaps cover that are not marked. -/
def unmarked (ms : MarkSweep) : Nat :=
  (ms.mark_bitmaps.map MarkBitmap.unmarked).sum

/-- What every turn of marking lowers or keeps: each push sets a bit first. -/
def potential (ms : MarkSweep) : Nat :=
  2 * ms.unmarked + ms.mark_stack.size

/-- The object lies in a space the collector knows: the immune range, a
    continuous space's bitmap, or the large object space. -/
def InSpace (ms : MarkSweep) (obj : Nat) : Prop :=
  ms.isImmune obj = true ∨ (∃ b ∈ ms.mark_bitmaps, b.hasAddress obj = true) ∨
    ∃ large_objects, ms.large_objects = some large_objects ∧ large_objects.contains obj = true

end MarkSweep

/-! ### Scanning an object -/

/-- What the collector reads of a class. -/
structure ClassRecord where
  is_array_class : Bool
  is_object_array_class : Bool
  /-- The class and its superclasses as linked, from the class up;
      `GetReferenceInstanceOffsets` is the first one's. -/
  chain : List LinkedClass
  /-- `GetReferenceStaticOffsets`. -/
  reference_static_offsets : UInt32
  /-- The offsets of its first `NumReferenceStaticFields` static fields. -/
  reference_static_fields : List Nat

/-- An object: its class (`GetClass`), the reference each field holds
    (`GetFieldObject`, `none` for null), and the elements of an object
    array. -/
structure HeapObject where
  klass : Nat
  field : Nat → Option Nat
  elements : List (Option Nat)

/-- The heap: the object at every address, the record of every class object,
    and the cached `java.lang.Class`. -/
structure Heap where
  objects : Nat → HeapObject
  classes : Nat → ClassRecord
  java_lang_class : Nat

/-- `MarkSweep::VisitStaticFieldsReferences`: `VisitFieldsReferences` with the
    static bitmap, whose `CLASS_WALK_SUPER` visits the class's own static
    fields only. -/
def visitStaticFieldsReferences (klass : ClassRecord) : List Nat :=
  if klass.reference_static_offsets ≠ CLASS_WALK_SUPER then
    visitBitmap 32 (klass.reference_static_offsets &&& (((1 : UInt32) <<< 31) - 1))
  else klass.reference_static_fields

/-- `MarkSweep::ScanObjectVisit`: the references the visitor is called on, in
    order. -/
def scanObjectVisit (heap : Heap) (obj : Nat) : List (Option Nat) :=
  let o := heap.objects obj
  let klass := heap.classes o.klass
  if klass.is_array_class then
    if klass.is_object_array_class then o.elements else []
  else if o.klass = heap.java_lang_class then
    -- `VisitClassReferences`: the fields of a `java.lang.Class`, then the
    -- static fields of the class the object is
    (visitInstanceFieldsReferences klass.chain ++ visitStaticFieldsReferences (heap.classes obj)).map
      o.field
  else
    -- `VisitOtherReferences`; a `Reference`'s referent is left to
    -- `DelayReferenceReferent`
    (visitInstanceFieldsReferences klass.chain).map o.field

/-- A reference the scan visits is an element of the array or the value of
    a field. -/
theorem mem_scanObjectVisit {heap : Heap} {obj r : Nat} (hr : some r ∈ scanObjectVisit heap obj) :
    some r ∈ (heap.objects obj).elements ∨ ∃ offset, (heap.objects obj).field offset = some r := by
  unfold scanObjectVisit at hr
  dsimp only at hr
  split_ifs at hr with harray hobject hclass
  · exact Or.inl hr
  · cases hr
  · obtain ⟨offset, -, hf⟩ := List.mem_map.mp hr
    exact Or.inr ⟨offset, hf⟩
  · obtain ⟨offset, -, hf⟩ := List.mem_map.mp hr
    exact Or.inr ⟨offset, hf⟩

/-- `MarkSweep::ScanObject`: `MarkObject` on each reference of the object. -/
def scanObject (heap : Heap) (ms : MarkSweep) (obj : Nat) : Except MarkFatal MarkSweep :=
  (scanObjectVisit heap obj).foldlM MarkSweep.markObject ms

/-! ### The stack -/

section Stack

/-- An `Except` bind that returns took a value and went on from it. -/
theorem except_bind_eq_ok {ε α β : Type} {x : Except ε α} {f : α → Except ε β} {b : β} :
    x >>= f = .ok b ↔ ∃ a, x = .ok a ∧ f a = .ok b := by
  cases x with
  | error e => exact ⟨(fun h => by cases h), fun ⟨_, h, _⟩ => by cases h⟩
  | ok a => exact ⟨fun h => ⟨a, rfl, h⟩, fun ⟨_, h, hf⟩ => by cases h; exact hf⟩

namespace MarkStack

theorem pushBack_eq_ok (s : MarkStack) (value : Nat) (h : s.entries.length < s.capacity) :
    ∃ s', s.pushBack value = .ok s' ∧ s'.entries = s.entries ++ [value] ∧ s'.capacity = s.capacity := by
  unfold pushBack
  rw [dif_neg (by omega)]
  exact ⟨_, rfl, rfl, rfl⟩

theorem pushBack_spec {s s' : MarkStack} {value : Nat} (h : s.pushBack value = .ok s') :
    s.entries.length < s.capacity ∧ s'.entries = s.entries ++ [value] ∧ s'.capacity = s.capacity := by
  unfold pushBack at h
  split at h
  · cases h
  · next hroom =>
    cases h
    exact ⟨by omega, rfl, rfl⟩

theorem popBack_spec {s s' : MarkStack} {obj : Nat} (h : s.popBack = some (obj, s')) :
    s.entries = s'.entries ++ [obj] ∧ s'.capacity = s.capacity := by
  unfold popBack at h
  rw [Option.map_eq_some_iff] at h
  obtain ⟨o, ho, he⟩ := h
  simp only [Prod.mk.injEq] at he
  obtain ⟨rfl, rfl⟩ := he
  exact ⟨(List.dropLast_append_getLast? _ ho).symm, rfl⟩

theorem popBack_eq_none_iff {s : MarkStack} : s.popBack = none ↔ s.entries = [] := by
  unfold popBack
  rw [Option.map_eq_none_iff, List.getLast?_eq_none_iff]

/-- Pushing a list in order onto a stack with room for it. -/
theorem foldlM_pushBack (l : List Nat) : ∀ acc : MarkStack, acc.entries.length + l.length ≤ acc.capacity →
    ∃ s', l.foldlM (fun s obj => s.pushBack obj) acc = .ok s' ∧ s'.entries = acc.entries ++ l ∧
      s'.capacity = acc.capacity := by
  induction l with
  | nil =>
    intro acc _
    exact ⟨acc, rfl, (List.append_nil _).symm, rfl⟩
  | cons obj l ih =>
    intro acc hroom
    rw [List.length_cons] at hroom
    obtain ⟨s1, h1, he1, hc1⟩ := pushBack_eq_ok acc obj (by omega)
    obtain ⟨s', h', he', hc'⟩ := ih s1 (by rw [he1, hc1, List.length_append, List.length_singleton]; omega)
    refine ⟨s', ?_, ?_, by rw [hc', hc1]⟩
    · rw [List.foldlM_cons, h1]
      exact h'
    · rw [he', he1, List.append_assoc, List.singleton_append]

end MarkStack

/-- Resizing to a size that holds the entries keeps them, in order; the
    capacity stays when there is room, and is the new size otherwise. -/
theorem resizeMarkStack_entries (mark_stack : MarkStack) (new_size : Nat) (h : mark_stack.size ≤ new_size) :
    ∃ s', resizeMarkStack mark_stack new_size = .ok s' ∧ s'.entries = mark_stack.entries ∧
      s'.capacity = if mark_stack.size < mark_stack.capacity then mark_stack.capacity else new_size := by
  unfold resizeMarkStack
  dsimp only
  split_ifs with hroom hfit
  · exact ⟨mark_stack, rfl, rfl, rfl⟩
  · -- the copy is pushed back onto the emptied stack
    obtain ⟨s', h', he', hc'⟩ := MarkStack.foldlM_pushBack mark_stack.entries ⟨[], new_size, Nat.zero_le _⟩
      (by rw [List.length_nil, Nat.zero_add]; exact hfit)
    exact ⟨s', h', he', hc'⟩
  · exact absurd h hfit

/-- `ExpandMarkStack` keeps the entries, and doubles a full stack. -/
theorem expandMarkStack_entries (mark_stack : MarkStack) :
    ∃ s', expandMarkStack mark_stack = .ok s' ∧ s'.entries = mark_stack.entries ∧
      s'.capacity = if mark_stack.size < mark_stack.capacity then mark_stack.capacity
        else mark_stack.capacity * 2 := by
  have hle : mark_stack.size ≤ mark_stack.capacity * 2 := by
    have := mark_stack.size_le
    unfold MarkStack.size
    omega
  exact resizeMarkStack_entries mark_stack _ hle

/-- The stack `MarkObjectNonNull` pushes onto: the same entries, with room
    for one more once the capacity is positive. -/
theorem expandIfFull_spec (s : MarkStack) :
    ∃ s', (if s.size ≥ s.capacity then expandMarkStack s else pure s) = .ok s' ∧
      s'.entries = s.entries ∧ s.capacity ≤ s'.capacity ∧
      (0 < s.capacity → s'.entries.length < s'.capacity) := by
  have hsize := s.size_le
  split_ifs with hfull
  · obtain ⟨s', h', he', hc'⟩ := expandMarkStack_entries s
    rw [if_neg (by omega)] at hc'
    refine ⟨s', h', he', by omega, fun hpos => ?_⟩
    unfold MarkStack.size at hfull
    rw [he', hc']
    omega
  · exact ⟨s, rfl, rfl, le_refl _, fun _ => by unfold MarkStack.size at hfull; omega⟩

end Stack

/-! ### Marks only grow -/

section Marks

/-- The large object space stays, with every mark kept. -/
def LargeLe : Option LargeObjects → Option LargeObjects → Prop
  | none, none => True
  | some l, some l' => l'.contains = l.contains ∧ ∀ a, l.marked a = true → l'.marked a = true
  | _, _ => False

theorem LargeLe.refl : ∀ l : Option LargeObjects, LargeLe l l
  | none => trivial
  | some _ => ⟨rfl, fun _ h => h⟩

theorem LargeLe.trans : ∀ {l₁ l₂ l₃ : Option LargeObjects}, LargeLe l₁ l₂ → LargeLe l₂ l₃ → LargeLe l₁ l₃
  | none, none, none, _, _ => trivial
  | some _, some _, some _, ⟨hc₁, hm₁⟩, ⟨hc₂, hm₂⟩ => ⟨hc₂.trans hc₁, fun a h => hm₂ a (hm₁ a h)⟩

/-- The marks only grow: the same immune range, current bitmap, bitmap ranges
    and large object space, with every mark kept. -/
structure MarksLe (ms ms' : MarkSweep) : Prop where
  immune_begin : ms'.immune_begin = ms.immune_begin
  immune_end : ms'.immune_end = ms.immune_end
  current : ms'.current_mark_bitmap = ms.current_mark_bitmap
  bounds : ms'.mark_bitmaps.map MarkBitmap.bounds = ms.mark_bitmaps.map MarkBitmap.bounds
  marked : ∀ i a, (ms.mark_bitmaps.getD i default).marked a = true →
    (ms'.mark_bitmaps.getD i default).marked a = true
  large : LargeLe ms.large_objects ms'.large_objects

theorem MarksLe.refl (ms : MarkSweep) : MarksLe ms ms :=
  ⟨rfl, rfl, rfl, rfl, fun _ _ h => h, LargeLe.refl _⟩

theorem MarksLe.trans {ms₁ ms₂ ms₃ : MarkSweep} (h₁ : MarksLe ms₁ ms₂) (h₂ : MarksLe ms₂ ms₃) :
    MarksLe ms₁ ms₃ :=
  ⟨h₂.immune_begin.trans h₁.immune_begin, h₂.immune_end.trans h₁.immune_end,
    h₂.current.trans h₁.current, h₂.bounds.trans h₁.bounds,
    fun i a h => h₂.marked i a (h₁.marked i a h), h₁.large.trans h₂.large⟩

namespace MarkBitmap

theorem hasAddress_eq_of_bounds {b b' : MarkBitmap} (h : b'.bounds = b.bounds) (obj : Nat) :
    b'.hasAddress obj = b.hasAddress obj := by
  unfold bounds at h
  simp only [Prod.mk.injEq] at h
  unfold hasAddress
  rw [h.1, h.2]

/-- The range of the bitmap at an index, read from the ranges alone. -/
theorem bounds_getD (l : List MarkBitmap) (i : Nat) :
    (l.getD i default).bounds = ((l.map bounds)[i]?).getD (0, 0) := by
  rw [List.getD_eq_getElem?_getD, List.getElem?_map]
  cases l[i]? <;> rfl

theorem getD_of_length_le {l : List MarkBitmap} {i : Nat} (h : l.length ≤ i) :
    l.getD i default = default := by
  rw [List.getD_eq_getElem?_getD, List.getElem?_eq_none h]
  rfl

theorem default_hasAddress (obj : Nat) : (default : MarkBitmap).hasAddress obj = false := by
  unfold hasAddress
  simp only [decide_eq_false_iff_not, not_and, not_lt]
  intro _
  exact Nat.zero_le _

/-- Setting a clear bit the bitmap covers leaves one fewer address unmarked. -/
theorem unmarked_set {b : MarkBitmap} {obj : Nat} (hin : b.hasAddress obj = true)
    (htest : b.test obj = false) : (b.set obj).unmarked + 1 = b.unmarked := by
  unfold hasAddress at hin
  unfold test at htest
  unfold unmarked set
  have hset : ((Finset.Ico b.heap_begin b.heap_limit).filter
      fun a => (a == obj || b.marked a) = false) =
      ((Finset.Ico b.heap_begin b.heap_limit).filter fun a => b.marked a = false).erase obj := by
    ext a
    simp only [Finset.mem_filter, Finset.mem_erase, Bool.or_eq_false_iff, beq_eq_false_iff_ne, ne_eq]
    tauto
  have hmem : obj ∈ (Finset.Ico b.heap_begin b.heap_limit).filter fun a => b.marked a = false := by
    rw [Finset.mem_filter, Finset.mem_Ico]
    exact ⟨of_decide_eq_true hin, htest⟩
  rw [hset, Finset.card_erase_of_mem hmem]
  have := Finset.card_pos.mpr ⟨obj, hmem⟩
  omega

end MarkBitmap

/-- Replacing one entry of a list changes its sum by the difference. -/
theorem sum_map_set {α : Type} (f : α → Nat) : ∀ (l : List α) (i : Nat) (hi : i < l.length) (a : α),
    ((l.set i a).map f).sum + f l[i] = (l.map f).sum + f a
  | [], _, hi, _ => absurd hi (Nat.not_lt_zero _)
  | x :: xs, 0, _, a => by
    simp only [List.set_cons_zero, List.map_cons, List.sum_cons, List.getElem_cons_zero]
    omega
  | x :: xs, i + 1, hi, a => by
    have ih := sum_map_set f xs i (by simpa using hi) a
    simp only [List.set_cons_succ, List.map_cons, List.sum_cons, List.getElem_cons_succ]
    omega

namespace MarkSweep

variable {ms ms' : MarkSweep} {obj : Nat}

theorem isImmune_eq_of_le (h : MarksLe ms ms') : ms'.isImmune obj = ms.isImmune obj := by
  unfold isImmune
  rw [h.immune_begin, h.immune_end]

/-- The bitmap search reads only the ranges of the bitmaps. -/
theorem bitmapIndex_eq_of_le (h : MarksLe ms ms') : ms'.bitmapIndex obj = ms.bitmapIndex obj := by
  have hcur : (ms'.mark_bitmaps.getD ms'.current_mark_bitmap default).hasAddress obj =
      (ms.mark_bitmaps.getD ms.current_mark_bitmap default).hasAddress obj := by
    apply MarkBitmap.hasAddress_eq_of_bounds
    rw [MarkBitmap.bounds_getD, MarkBitmap.bounds_getD, h.bounds, h.current]
  have hfind : ms'.mark_bitmaps.findIdx? (fun b => b.hasAddress obj) =
      ms.mark_bitmaps.findIdx? (fun b => b.hasAddress obj) := by
    have hmap : ∀ l : List MarkBitmap, l.findIdx? (fun b => b.hasAddress obj) =
        (l.map MarkBitmap.bounds).findIdx? (fun r => decide (r.1 ≤ obj ∧ obj < r.2)) := by
      intro l
      rw [List.findIdx?_map]
      rfl
    rw [hmap, hmap, h.bounds]
  unfold bitmapIndex
  rw [hcur, hfind, h.current]

/-- The bitmap an object is marked in covers it. -/
theorem bitmapIndex_spec {i : Nat} (h : ms.bitmapIndex obj = some i) :
    i < ms.mark_bitmaps.length ∧ (ms.mark_bitmaps.getD i default).hasAddress obj = true := by
  unfold bitmapIndex at h
  split at h
  · next hcur =>
    cases h
    refine ⟨?_, hcur⟩
    by_contra hlen
    rw [MarkBitmap.getD_of_length_le (by omega), MarkBitmap.default_hasAddress] at hcur
    exact Bool.false_ne_true hcur
  · obtain ⟨hlt, hp, -⟩ := List.findIdx?_eq_some_iff_getElem.mp h
    refine ⟨hlt, ?_⟩
    rw [List.getD_eq_getElem _ _ hlt]
    exact hp

theorem bitmapIndex_eq_none_iff :
    ms.bitmapIndex obj = none ↔ ∀ b ∈ ms.mark_bitmaps, b.hasAddress obj = false := by
  unfold bitmapIndex
  split
  · next hcur =>
    refine ⟨(fun h => by cases h), fun hall => ?_⟩
    -- the current bitmap is one of the heap's
    by_cases hlen : ms.current_mark_bitmap < ms.mark_bitmaps.length
    · rw [List.getD_eq_getElem _ _ hlen] at hcur
      rw [hall _ (List.getElem_mem hlen)] at hcur
      exact absurd hcur Bool.false_ne_true
    · rw [MarkBitmap.getD_of_length_le (by omega), MarkBitmap.default_hasAddress] at hcur
      exact absurd hcur Bool.false_ne_true
  · exact List.findIdx?_eq_none_iff

/-- A mark is never lost. -/
theorem isMarked_of_le (h : MarksLe ms ms') (hm : ms.isMarked obj = true) : ms'.isMarked obj = true := by
  unfold isMarked at hm ⊢
  rw [isImmune_eq_of_le h, bitmapIndex_eq_of_le h]
  split_ifs at hm ⊢ with himm
  · rfl
  · split at hm
    · next i hi =>
      exact h.marked i obj hm
    · next hi =>
      have hlarge := h.large
      revert hlarge hm
      cases ms.large_objects <;> cases ms'.large_objects <;> intro hm hlarge
      · exact hm
      · exact absurd hlarge id
      · exact absurd hlarge id
      · exact hlarge.2 obj hm

theorem inSpace_of_le (h : MarksLe ms ms') (hin : ms.InSpace obj) : ms'.InSpace obj := by
  unfold InSpace at hin ⊢
  rw [isImmune_eq_of_le h]
  rcases hin with himm | ⟨b, hb, hadd⟩ | ⟨l, hl, hc⟩
  · exact Or.inl himm
  · -- a bitmap of the same range is among the new ones
    have hbounds : b.bounds ∈ ms'.mark_bitmaps.map MarkBitmap.bounds := by
      rw [h.bounds]
      exact List.mem_map_of_mem hb
    obtain ⟨b', hb', heq⟩ := List.mem_map.mp hbounds
    exact Or.inr (Or.inl ⟨b', hb', by rw [MarkBitmap.hasAddress_eq_of_bounds heq]; exact hadd⟩)
  · have hlarge := h.large
    rw [hl] at hlarge
    revert hlarge
    cases ms'.large_objects with
    | none => exact fun hlarge => absurd hlarge id
    | some l' => exact fun hlarge => Or.inr (Or.inr ⟨l', rfl, by rw [hlarge.1]; exact hc⟩)

end MarkSweep

end Marks


/-! ### One mark -/

section Mark

namespace MarkSweep

variable {ms ms' : MarkSweep} {obj : Nat}

/-- What one `MarkObjectNonNull` that returns does: the marks only grow, the
    stack keeps its capacity or grows, the potential does not rise, and
    either nothing is pushed or the object, whose bit was clear and is now
    set, is pushed on top. -/
structure MarkStep (ms ms' : MarkSweep) (obj : Nat) : Prop where
  le : MarksLe ms ms'
  capacity_le : ms.mark_stack.capacity ≤ ms'.mark_stack.capacity
  potential_le : ms'.potential ≤ ms.potential
  stack : (ms'.mark_stack.entries = ms.mark_stack.entries ∧ ms'.pushed = ms.pushed) ∨
    (ms.isMarked obj = false ∧ ms'.isMarked obj = true ∧
      ms'.mark_stack.entries = ms.mark_stack.entries ++ [obj] ∧ ms'.pushed = ms.pushed ++ [obj])

theorem MarkStep.refl (ms : MarkSweep) (obj : Nat) : MarkStep ms ms obj :=
  ⟨MarksLe.refl ms, le_refl _, le_refl _, Or.inl ⟨rfl, rfl⟩⟩

/-- `MarkLargeObject(obj, true)` touches the large object space only, and
    leaves the object marked there. -/
theorem markLargeObject_spec {r : MarkSweep × Bool} (h : ms.markLargeObject obj true = .ok r) :
    MarksLe ms r.1 ∧ r.1.mark_bitmaps = ms.mark_bitmaps ∧ r.1.mark_stack = ms.mark_stack ∧
      r.1.pushed = ms.pushed ∧ ∀ l', r.1.large_objects = some l' → l'.marked obj = true := by
  unfold markLargeObject at h
  split at h
  · next hnone =>
    cases h
    exact ⟨MarksLe.refl _, rfl, rfl, rfl, fun l' hl' => by rw [hnone] at hl'; cases hl'⟩
  · next large_objects hsome =>
    simp only [↓reduceIte] at h
    -- a clear mark on an object outside the space is the fatal branch
    split_ifs at h with hclear hcontains
    · -- the object's mark is set
      cases h
      refine ⟨⟨rfl, rfl, rfl, rfl, fun _ _ hm => hm, ?_⟩, rfl, rfl, rfl, fun l' hl' => ?_⟩
      · rw [hsome]
        exact ⟨rfl, fun a ha => by simp only [ha, Bool.or_true]⟩
      · cases hl'
        simp only [beq_self_eq_true, Bool.true_or]
    · cases h
      refine ⟨MarksLe.refl _, rfl, rfl, rfl, fun l' hl' => ?_⟩
      rw [hsome] at hl'
      cases hl'
      simpa using hclear

/-- Setting the bit of a covered object keeps every other mark and range. -/
theorem marksLe_setBit {i : Nat} (hi : i < ms.mark_bitmaps.length) (mark_stack : MarkStack)
    (pushed : List Nat) :
    MarksLe ms { ms with
      mark_bitmaps := ms.mark_bitmaps.set i ((ms.mark_bitmaps.getD i default).set obj),
      mark_stack, pushed } := by
  refine ⟨rfl, rfl, rfl, ?_, fun j a hm => ?_, LargeLe.refl _⟩
  · -- `Set` keeps the range
    dsimp only
    rw [List.map_set, List.getD_eq_getElem _ _ hi]
    have hi' : i < (ms.mark_bitmaps.map MarkBitmap.bounds).length := by
      rw [List.length_map]
      exact hi
    have hb : (ms.mark_bitmaps[i].set obj).bounds = (ms.mark_bitmaps.map MarkBitmap.bounds)[i] := by
      rw [List.getElem_map]
      rfl
    rw [hb, List.set_getElem_self]
  · dsimp only
    rw [List.getD_eq_getElem?_getD, List.getElem?_set]
    by_cases hij : i = j
    · subst hij
      rw [if_pos rfl, if_pos hi, Option.getD_some]
      simp only [MarkBitmap.set, hm, Bool.or_true]
    · rw [if_neg hij, ← List.getD_eq_getElem?_getD]
      exact hm

/-- When the bit is clear, a `MarkObjectNonNull` that returns has set it and
    pushed the object, after doubling a full stack. -/
theorem markObjectNonNull_push {i : Nat} (himm : ms.isImmune obj = false)
    (hidx : ms.bitmapIndex obj = some i) (htest : (ms.mark_bitmaps.getD i default).test obj = false)
    (h : ms.markObjectNonNull obj = .ok ms') :
    ∃ mark_stack, ms' = { ms with
        mark_bitmaps := ms.mark_bitmaps.set i ((ms.mark_bitmaps.getD i default).set obj),
        mark_stack, pushed := ms.pushed ++ [obj] } ∧
      mark_stack.entries = ms.mark_stack.entries ++ [obj] ∧
      ms.mark_stack.capacity ≤ mark_stack.capacity := by
  unfold markObjectNonNull at h
  rw [himm, hidx] at h
  simp only [Bool.false_eq_true, if_false, htest] at h
  have hsize := ms.mark_stack.size_le
  split_ifs at h with hfull
  · -- a full stack is doubled first
    rw [except_bind_eq_ok] at h
    obtain ⟨s1, hs1, h⟩ := h
    obtain ⟨s1', hs1', he1, hc1⟩ := expandMarkStack_entries ms.mark_stack
    rw [hs1'] at hs1
    cases hs1
    rw [except_bind_eq_ok] at h
    obtain ⟨s2, hs2, h⟩ := h
    cases h
    obtain ⟨-, he2, hc2⟩ := MarkStack.pushBack_spec hs2
    refine ⟨s2, rfl, by rw [he2, he1], ?_⟩
    rw [hc2, hc1]
    split <;> omega
  · rw [except_bind_eq_ok] at h
    obtain ⟨s1, hs1, h⟩ := h
    cases hs1
    rw [except_bind_eq_ok] at h
    obtain ⟨s2, hs2, h⟩ := h
    cases h
    obtain ⟨-, he2, hc2⟩ := MarkStack.pushBack_spec hs2
    exact ⟨s2, rfl, he2, by rw [hc2]⟩

/-- Setting the bit marks the object. -/
theorem isMarked_setBit {i : Nat} (himm : ms.isImmune obj = false) (hidx : ms.bitmapIndex obj = some i)
    (mark_stack : MarkStack) (pushed : List Nat) :
    ({ ms with
      mark_bitmaps := ms.mark_bitmaps.set i ((ms.mark_bitmaps.getD i default).set obj),
      mark_stack, pushed } : MarkSweep).isMarked obj = true := by
  obtain ⟨hi, -⟩ := bitmapIndex_spec hidx
  have hle := @marksLe_setBit ms obj _ hi mark_stack pushed
  unfold isMarked
  rw [isImmune_eq_of_le hle, himm, bitmapIndex_eq_of_le hle, hidx]
  dsimp only
  rw [List.getD_eq_getElem?_getD, List.getElem?_set_self hi, Option.getD_some]
  simp only [Bool.false_eq_true, if_false, MarkBitmap.test, MarkBitmap.set, beq_self_eq_true,
    Bool.true_or]

/-- The push case of `MarkStep`. -/
theorem markStep_push {i : Nat} (himm : ms.isImmune obj = false) (hidx : ms.bitmapIndex obj = some i)
    (htest : (ms.mark_bitmaps.getD i default).test obj = false) (mark_stack : MarkStack)
    (hentries : mark_stack.entries = ms.mark_stack.entries ++ [obj])
    (hcap : ms.mark_stack.capacity ≤ mark_stack.capacity) :
    MarkStep ms { ms with
      mark_bitmaps := ms.mark_bitmaps.set i ((ms.mark_bitmaps.getD i default).set obj),
      mark_stack, pushed := ms.pushed ++ [obj] } obj := by
  obtain ⟨hi, hin⟩ := bitmapIndex_spec hidx
  have hle : MarksLe ms { ms with
      mark_bitmaps := ms.mark_bitmaps.set i ((ms.mark_bitmaps.getD i default).set obj),
      mark_stack, pushed := ms.pushed ++ [obj] } := marksLe_setBit hi mark_stack _
  -- one address fewer is unmarked, one entry more is on the stack
  have hunmarked := MarkBitmap.unmarked_set hin htest
  have hsum := sum_map_set MarkBitmap.unmarked ms.mark_bitmaps i hi
    ((ms.mark_bitmaps.getD i default).set obj)
  have hget : ms.mark_bitmaps[i] = ms.mark_bitmaps.getD i default := (List.getD_eq_getElem _ _ hi).symm
  rw [hget] at hsum
  refine ⟨hle, hcap, ?_, Or.inr ⟨?_, isMarked_setBit himm hidx mark_stack _, hentries, rfl⟩⟩
  · unfold potential unmarked MarkStack.size
    dsimp only
    rw [hentries, List.length_append, List.length_singleton]
    omega
  · unfold isMarked
    rw [himm, hidx]
    exact htest

/-- Every `MarkObjectNonNull` that returns is a `MarkStep`. -/
theorem markObjectNonNull_step (h : ms.markObjectNonNull obj = .ok ms') : MarkStep ms ms' obj := by
  by_cases himm : ms.isImmune obj = true
  · -- an immune object is left alone
    unfold markObjectNonNull at h
    rw [if_pos himm] at h
    cases h
    exact MarkStep.refl ms obj
  have himm' : ms.isImmune obj = false := by simpa using himm
  cases hidx : ms.bitmapIndex obj with
  | none =>
    -- no continuous space: the large object space
    unfold markObjectNonNull at h
    rw [himm', hidx] at h
    simp only [Bool.false_eq_true, if_false] at h
    cases hl : ms.markLargeObject obj true with
    | error e => rw [hl] at h; cases h
    | ok r =>
      rw [hl] at h
      cases h
      obtain ⟨hle, hbit, hstack, hpushed, -⟩ := markLargeObject_spec hl
      refine ⟨hle, by rw [hstack], ?_, Or.inl ⟨by rw [hstack], hpushed⟩⟩
      unfold potential unmarked
      rw [hbit, hstack]
  | some i =>
    by_cases htest : (ms.mark_bitmaps.getD i default).test obj = true
    · -- already marked
      unfold markObjectNonNull at h
      rw [himm', hidx] at h
      simp only [Bool.false_eq_true, if_false, htest, if_true] at h
      cases h
      exact MarkStep.refl ms obj
    · have htest' : (ms.mark_bitmaps.getD i default).test obj = false := by simpa using htest
      obtain ⟨mark_stack, rfl, hentries, hcap⟩ := markObjectNonNull_push himm' hidx htest' h
      exact markStep_push himm' hidx htest' mark_stack hentries hcap

/-- `MarkObjectNonNull` returns on an object of some space once the stack
    has a positive capacity, and leaves the object marked. -/
theorem markObjectNonNull_ok (hcap : 0 < ms.mark_stack.capacity) (hin : ms.InSpace obj) :
    ∃ ms', ms.markObjectNonNull obj = .ok ms' ∧ ms'.isMarked obj = true := by
  by_cases himm : ms.isImmune obj = true
  · refine ⟨ms, ?_, ?_⟩
    · unfold markObjectNonNull
      rw [if_pos himm]
    · unfold isMarked
      rw [if_pos himm]
  have himm' : ms.isImmune obj = false := by simpa using himm
  cases hidx : ms.bitmapIndex obj with
  | none =>
    -- in no continuous space, so in the large object space
    have hall := bitmapIndex_eq_none_iff.mp hidx
    obtain ⟨large_objects, hl, hc⟩ : ∃ l, ms.large_objects = some l ∧ l.contains obj = true := by
      rcases hin with h | ⟨b, hb, hadd⟩ | h
      · rw [himm'] at h
        cases h
      · rw [hall b hb] at hadd
        cases hadd
      · exact h
    obtain ⟨r, hr⟩ : ∃ r, ms.markLargeObject obj true = .ok r := by
      unfold markLargeObject
      rw [hl]
      simp only [↓reduceIte, hc, Bool.not_true, Bool.false_eq_true]
      split <;> exact ⟨_, rfl⟩
    obtain ⟨hle, -, -, -, hmarked⟩ := markLargeObject_spec hr
    refine ⟨r.1, ?_, ?_⟩
    · unfold markObjectNonNull
      rw [himm', hidx]
      simp only [Bool.false_eq_true, if_false]
      rw [hr]
      rfl
    · unfold isMarked
      rw [isImmune_eq_of_le hle, himm', bitmapIndex_eq_of_le hle, hidx]
      simp only [Bool.false_eq_true, if_false]
      have hlarge := hle.large
      rw [hl] at hlarge
      revert hlarge hmarked
      cases r.1.large_objects with
      | none => exact fun _ hlarge => absurd hlarge id
      | some l' => exact fun hm _ => hm l' rfl
  | some i =>
    by_cases htest : (ms.mark_bitmaps.getD i default).test obj = true
    · -- already marked
      refine ⟨ms, ?_, ?_⟩
      · unfold markObjectNonNull
        rw [himm', hidx]
        simp only [Bool.false_eq_true, if_false, htest, if_true]
      · unfold isMarked
        rw [himm', hidx]
        exact htest
    have htest' : (ms.mark_bitmaps.getD i default).test obj = false := by simpa using htest
    have hsize := ms.mark_stack.size_le
    by_cases hfull : ms.mark_stack.size ≥ ms.mark_stack.capacity
    · -- the doubled stack has room
      obtain ⟨s1, hs1, he1, hc1⟩ := expandMarkStack_entries ms.mark_stack
      rw [if_neg (by omega)] at hc1
      unfold MarkStack.size at hfull
      obtain ⟨s2, hs2, -, -⟩ := MarkStack.pushBack_eq_ok s1 obj (by rw [he1, hc1]; omega)
      refine ⟨_, ?_, isMarked_setBit himm' hidx s2 (ms.pushed ++ [obj])⟩
      unfold markObjectNonNull
      rw [himm', hidx]
      simp only [Bool.false_eq_true, if_false, htest']
      rw [if_pos (show ms.mark_stack.size ≥ ms.mark_stack.capacity from hfull)]
      exact except_bind_eq_ok.mpr ⟨s1, hs1, except_bind_eq_ok.mpr ⟨s2, hs2, rfl⟩⟩
    · unfold MarkStack.size at hfull
      obtain ⟨s2, hs2, -, -⟩ := MarkStack.pushBack_eq_ok ms.mark_stack obj (by omega)
      refine ⟨_, ?_, isMarked_setBit himm' hidx s2 (ms.pushed ++ [obj])⟩
      unfold markObjectNonNull
      rw [himm', hidx]
      simp only [Bool.false_eq_true, if_false, htest']
      rw [if_neg (show ¬ms.mark_stack.size ≥ ms.mark_stack.capacity from hfull)]
      exact except_bind_eq_ok.mpr ⟨ms.mark_stack, rfl, except_bind_eq_ok.mpr ⟨s2, hs2, rfl⟩⟩

end MarkSweep

end Mark

/-! ### Runs of marks -/

section Runs

/-- What every step of a fold in `Except` keeps, the fold keeps. -/
theorem foldlM_except_inv {σ α ε : Type} (f : σ → α → Except ε σ) (P : σ → Prop) :
    ∀ (l : List α) (s s' : σ), (∀ t a t', a ∈ l → P t → f t a = .ok t' → P t') → P s →
      l.foldlM f s = .ok s' → P s'
  | [], s, s', _, hs, h => by
    cases h
    exact hs
  | a :: l, s, s', hstep, hs, h => by
    rw [List.foldlM_cons, except_bind_eq_ok] at h
    obtain ⟨t, ht, h⟩ := h
    exact foldlM_except_inv f P l t s' (fun t b t' hb => hstep t b t' (List.mem_cons_of_mem a hb))
      (hstep s a t List.mem_cons_self hs ht) h

namespace MarkSweep

variable {ms ms' ms'' : MarkSweep}

/-- What a run of marks does from `ms` to `ms'`: the marks only grow, the
    capacity does not shrink, the potential does not rise, and the objects
    pushed, in order on top of the stack, are new, each once, each clear in
    `ms` and marked in `ms'`. -/
structure MarkRun (ms ms' : MarkSweep) : Prop where
  le : MarksLe ms ms'
  capacity_le : ms.mark_stack.capacity ≤ ms'.mark_stack.capacity
  potential_le : ms'.potential ≤ ms.potential
  pushes : ∃ new, ms'.pushed = ms.pushed ++ new ∧
    ms'.mark_stack.entries = ms.mark_stack.entries ++ new ∧ new.Nodup ∧
    ∀ o ∈ new, ms.isMarked o = false ∧ ms'.isMarked o = true

theorem MarkRun.refl (ms : MarkSweep) : MarkRun ms ms :=
  ⟨MarksLe.refl ms, le_refl _, le_refl _, [], (List.append_nil _).symm, (List.append_nil _).symm,
    List.nodup_nil, fun _ h => absurd h List.not_mem_nil⟩

theorem MarkRun.trans (h₁ : MarkRun ms ms') (h₂ : MarkRun ms' ms'') : MarkRun ms ms'' := by
  obtain ⟨new₁, hp₁, he₁, hn₁, hm₁⟩ := h₁.pushes
  obtain ⟨new₂, hp₂, he₂, hn₂, hm₂⟩ := h₂.pushes
  refine ⟨h₁.le.trans h₂.le, h₁.capacity_le.trans h₂.capacity_le,
    h₂.potential_le.trans h₁.potential_le, new₁ ++ new₂, ?_, ?_, ?_, ?_⟩
  · rw [hp₂, hp₁, List.append_assoc]
  · rw [he₂, he₁, List.append_assoc]
  · -- the second run pushes what was clear after the first, which marked its own pushes
    refine List.nodup_append.mpr ⟨hn₁, hn₂, fun a ha b hb hab => ?_⟩
    subst hab
    have := (hm₂ a hb).1
    rw [(hm₁ a ha).2] at this
    exact Bool.noConfusion this
  · intro o ho
    rcases List.mem_append.mp ho with ho | ho
    · exact ⟨(hm₁ o ho).1, isMarked_of_le h₂.le (hm₁ o ho).2⟩
    · refine ⟨?_, (hm₂ o ho).2⟩
      cases hm : ms.isMarked o
      · rfl
      · have := isMarked_of_le h₁.le hm
        rw [(hm₂ o ho).1] at this
        exact Bool.noConfusion this

theorem MarkRun.of_step {obj : Nat} (h : MarkStep ms ms' obj) : MarkRun ms ms' := by
  refine ⟨h.le, h.capacity_le, h.potential_le, ?_⟩
  rcases h.stack with ⟨he, hp⟩ | ⟨hclear, hset, he, hp⟩
  · exact ⟨[], by rw [hp, List.append_nil], by rw [he, List.append_nil], List.nodup_nil,
      fun _ h => absurd h List.not_mem_nil⟩
  · exact ⟨[obj], hp, he, List.nodup_singleton obj,
      fun o ho => by rw [List.mem_singleton.mp ho]; exact ⟨hclear, hset⟩⟩

/-- Every `MarkObject` that returns is a run of marks. -/
theorem markObject_run {ref : Option Nat} (h : ms.markObject ref = .ok ms') : MarkRun ms ms' := by
  cases ref with
  | none =>
    cases h
    exact MarkRun.refl ms
  | some obj => exact MarkRun.of_step (markObjectNonNull_step h)

/-- `MarkObject` on each of a list of references, from a stack with a
    positive capacity and references that lie in some space, returns, marks
    every one of them, and is a run of marks. -/
theorem foldlM_markObject (hcap : 0 < ms.mark_stack.capacity) : ∀ l : List (Option Nat),
    (∀ r, some r ∈ l → ms.InSpace r) →
    ∃ ms', l.foldlM markObject ms = .ok ms' ∧ MarkRun ms ms' ∧ ∀ r, some r ∈ l → ms'.isMarked r = true := by
  intro l
  induction l generalizing ms with
  | nil =>
    intro _
    exact ⟨ms, rfl, MarkRun.refl ms, fun _ h => absurd h List.not_mem_nil⟩
  | cons ref l ih =>
    intro hin
    cases ref with
    | none =>
      obtain ⟨ms', h', hrun, hm⟩ := ih hcap (fun r hr => hin r (List.mem_cons_of_mem _ hr))
      refine ⟨ms', by rw [List.foldlM_cons]; exact h', hrun, fun r hr => ?_⟩
      rcases List.mem_cons.mp hr with hr | hr
      · cases hr
      · exact hm r hr
    | some obj =>
      -- the first reference, then the rest from where it left the state
      obtain ⟨t, ht, hmt⟩ := markObjectNonNull_ok hcap (hin obj List.mem_cons_self)
      have hstep := MarkRun.of_step (markObjectNonNull_step ht)
      obtain ⟨ms', h', hrun, hm⟩ := ih (Nat.lt_of_lt_of_le hcap hstep.capacity_le)
        (fun r hr => inSpace_of_le hstep.le (hin r (List.mem_cons_of_mem _ hr)))
      refine ⟨ms', ?_, hstep.trans hrun, fun r hr => ?_⟩
      · rw [List.foldlM_cons]
        exact except_bind_eq_ok.mpr ⟨t, ht, h'⟩
      · rcases List.mem_cons.mp hr with hr | hr
        · cases hr
          exact isMarked_of_le hrun.le hmt
        · exact hm r hr

/-- A fold of `MarkObject` that returns is a run of marks. -/
theorem foldlM_markObject_run {l : List (Option Nat)} (h : l.foldlM markObject ms = .ok ms') :
    MarkRun ms ms' :=
  foldlM_except_inv markObject (MarkRun ms) l ms ms'
    (fun _ _ _ _ ht hf => ht.trans (markObject_run hf)) (MarkRun.refl ms) h

end MarkSweep

end Runs

/-! ### ProcessMarkStack -/

/-- `kFifoSize`. -/
def kFifoSize : Nat := 4

/-- The prefetch loop of `ProcessMarkStack`: pop from the stack into the
    FIFO while the stack is not empty and the FIFO has room. -/
def fillFifo (mark_stack : MarkStack) (prefetch_fifo : List Nat) : MarkStack × List Nat :=
  if mark_stack.size ≠ 0 ∧ prefetch_fifo.length < kFifoSize then
    match h : mark_stack.popBack with
    | some (obj, rest) => fillFifo rest (prefetch_fifo ++ [obj])
    | none => (mark_stack, prefetch_fifo)
  else (mark_stack, prefetch_fifo)
termination_by mark_stack.size
decreasing_by
  have hpop := (MarkStack.popBack_spec h).1
  unfold MarkStack.size
  rw [hpop, List.length_append, List.length_singleton]
  omega

/-- The prefetch loop moves objects from the stack to the back of the FIFO:
    the capacity, the objects held by the two, and their total size stay, and
    it stops with an empty stack unless the FIFO is full. -/
theorem fillFifo_spec (mark_stack : MarkStack) (prefetch_fifo : List Nat) :
    (fillFifo mark_stack prefetch_fifo).1.capacity = mark_stack.capacity ∧
    (∀ o, o ∈ (fillFifo mark_stack prefetch_fifo).1.entries ∨ o ∈ (fillFifo mark_stack prefetch_fifo).2 ↔
      o ∈ mark_stack.entries ∨ o ∈ prefetch_fifo) ∧
    (fillFifo mark_stack prefetch_fifo).1.size + (fillFifo mark_stack prefetch_fifo).2.length =
      mark_stack.size + prefetch_fifo.length ∧
    ((fillFifo mark_stack prefetch_fifo).2.length < kFifoSize →
      (fillFifo mark_stack prefetch_fifo).1.entries = []) := by
  fun_induction fillFifo mark_stack prefetch_fifo with
  | case1 mark_stack prefetch_fifo hroom obj rest hpop ih =>
    -- one object moves from the top of the stack to the back of the FIFO
    obtain ⟨hcap, hmem, hsize, hempty⟩ := ih
    obtain ⟨hentries, hcap'⟩ := MarkStack.popBack_spec hpop
    refine ⟨hcap.trans hcap', fun o => ?_, ?_, hempty⟩
    · rw [hmem o, hentries]
      simp only [List.mem_append, List.mem_singleton]
      tauto
    · rw [hsize]
      unfold MarkStack.size
      rw [hentries, List.length_append, List.length_append, List.length_singleton]
      omega
  | case2 mark_stack prefetch_fifo hroom hpop =>
    exact ⟨rfl, fun _ => Iff.rfl, rfl, fun _ => MarkStack.popBack_eq_none_iff.mp hpop⟩
  | case3 mark_stack prefetch_fifo hstop =>
    refine ⟨rfl, fun _ => Iff.rfl, rfl, fun hlt => ?_⟩
    have : mark_stack.size = 0 := by
      by_contra hne
      exact hstop ⟨hne, hlt⟩
    exact List.length_eq_zero_iff.mp this

/-- A scan is a run of marks. -/
theorem scanObject_run {heap : Heap} {ms ms' : MarkSweep} {obj : Nat}
    (h : scanObject heap ms obj = .ok ms') : MarkSweep.MarkRun ms ms' :=
  MarkSweep.foldlM_markObject_run h

/-- The sequential branch of `ProcessMarkStack`: refill the FIFO from the
    stack, stop when the FIFO is empty, else scan its front; each turn lowers
    the potential and the FIFO together. -/
def processMarkStackLoop (heap : Heap) (ms : MarkSweep) (prefetch_fifo : List Nat) :
    Except MarkFatal MarkSweep :=
  match h : fillFifo ms.mark_stack prefetch_fifo with
  | (mark_stack, []) => .ok { ms with mark_stack }
  | (mark_stack, obj :: rest) =>
    match hs : scanObject heap { ms with mark_stack } obj with
    | .error e => .error e
    | .ok ms' => processMarkStackLoop heap ms' rest
termination_by ms.potential + prefetch_fifo.length
decreasing_by
  have hsize := (fillFifo_spec ms.mark_stack prefetch_fifo).2.2.1
  rw [h] at hsize
  -- the scanned state has the bitmaps of `ms` and the refilled stack
  have hpot : ms'.potential ≤ 2 * ms.unmarked + mark_stack.size := (scanObject_run hs).potential_le
  unfold MarkSweep.potential at hpot ⊢
  simp only [List.length_cons] at hsize
  omega

/-- `MarkSweep::ProcessMarkStack` on its sequential branch, with the prefetch
    FIFO (`kUseMarkStackPrefetch`). -/
def processMarkStack (heap : Heap) (ms : MarkSweep) : Except MarkFatal MarkSweep :=
  processMarkStackLoop heap ms []

/-- A sequence of `MarkObject` calls on the roots, then `ProcessMarkStack`. -/
def markThenProcess (heap : Heap) (ms : MarkSweep) (roots : List (Option Nat)) :
    Except MarkFatal MarkSweep := do
  let ms ← roots.foldlM MarkSweep.markObject ms
  processMarkStack heap ms


/-! ### The gray invariant -/

section Invariant

open MarkSweep

/-- Every reference the object holds is marked. -/
def Scanned (heap : Heap) (ms : MarkSweep) (obj : Nat) : Prop :=
  ∀ r, some r ∈ scanObjectVisit heap obj → ms.isMarked r = true

/-- The objects pushed since the state `ms₀`. -/
def newPushes (ms₀ ms : MarkSweep) : List Nat :=
  ms.pushed.drop ms₀.pushed.length

/-- What marking keeps from the state `ms₀` it began in, with the objects in
    the prefetch FIFO: the marks only grew, the stack has room to grow, the
    objects pushed since were each clear in `ms₀`, are marked now, and were
    pushed once, and every object that was ever on the stack is on it, in the
    FIFO, or has all its references marked. -/
structure MarkInv (heap : Heap) (ms₀ ms : MarkSweep) (prefetch_fifo : List Nat) : Prop where
  le : MarksLe ms₀ ms
  capacity_pos : 0 < ms.mark_stack.capacity
  pushed_eq : ms.pushed = ms₀.pushed ++ newPushes ms₀ ms
  nodup : (newPushes ms₀ ms).Nodup
  fresh : ∀ o ∈ newPushes ms₀ ms, ms₀.isMarked o = false ∧ ms.isMarked o = true
  gray : ∀ o, o ∈ ms₀.mark_stack.entries ∨ o ∈ newPushes ms₀ ms →
    o ∈ ms.mark_stack.entries ∨ o ∈ prefetch_fifo ∨ Scanned heap ms o

variable {heap : Heap} {ms₀ ms ms' : MarkSweep} {prefetch_fifo : List Nat}

theorem newPushes_of_eq {new : List Nat} (h : ms.pushed = ms₀.pushed ++ new) : newPushes ms₀ ms = new := by
  unfold newPushes
  rw [h, List.drop_left]

theorem Scanned.of_le {obj : Nat} (hle : MarksLe ms ms') (h : Scanned heap ms obj) : Scanned heap ms' obj :=
  fun r hr => isMarked_of_le hle (h r hr)

/-- Another stack changes no mark. -/
theorem MarksLe.withStack (h : MarksLe ms₀ ms) (mark_stack : MarkStack) :
    MarksLe ms₀ { ms with mark_stack } :=
  ⟨h.immune_begin, h.immune_end, h.current, h.bounds, h.marked, h.large⟩

theorem isMarked_withStack (mark_stack : MarkStack) (obj : Nat) :
    ({ ms with mark_stack } : MarkSweep).isMarked obj = ms.isMarked obj :=
  rfl

/-- Before marking, only the stack's own objects are gray. -/
theorem MarkInv.init (hcap : 0 < ms₀.mark_stack.capacity) : MarkInv heap ms₀ ms₀ [] := by
  have hnew : newPushes ms₀ ms₀ = [] := by
    unfold newPushes
    exact List.drop_length
  refine ⟨MarksLe.refl ms₀, hcap, by rw [hnew, List.append_nil], by rw [hnew]; exact List.nodup_nil,
    (fun o ho => by rw [hnew] at ho; cases ho), fun o ho => ?_⟩
  rw [hnew] at ho
  rcases ho with ho | ho
  · exact Or.inl ho
  · cases ho

/-- A run of marks keeps the invariant: what it pushes is new and lands on the
    stack. -/
theorem MarkInv.run (hinv : MarkInv heap ms₀ ms prefetch_fifo) (hrun : MarkRun ms ms') :
    MarkInv heap ms₀ ms' prefetch_fifo := by
  obtain ⟨new, hp, he, hn, hm⟩ := hrun.pushes
  have hnew : newPushes ms₀ ms' = newPushes ms₀ ms ++ new := by
    apply newPushes_of_eq
    rw [hp, hinv.pushed_eq, List.append_assoc]
  refine ⟨hinv.le.trans hrun.le, Nat.lt_of_lt_of_le hinv.capacity_pos hrun.capacity_le, ?_, ?_, ?_, ?_⟩
  · rw [hnew, hp, hinv.pushed_eq, List.append_assoc]
  · -- the run pushes what was clear in `ms`, where the earlier pushes are marked
    rw [hnew]
    refine List.nodup_append.mpr ⟨hinv.nodup, hn, fun a ha b hb hab => ?_⟩
    subst hab
    have := (hm a hb).1
    rw [(hinv.fresh a ha).2] at this
    exact Bool.noConfusion this
  · intro o ho
    rw [hnew] at ho
    rcases List.mem_append.mp ho with ho | ho
    · exact ⟨(hinv.fresh o ho).1, isMarked_of_le hrun.le (hinv.fresh o ho).2⟩
    · refine ⟨?_, (hm o ho).2⟩
      cases h₀ : ms₀.isMarked o
      · rfl
      · have := isMarked_of_le hinv.le h₀
        rw [(hm o ho).1] at this
        exact Bool.noConfusion this
  · intro o ho
    rw [hnew, List.mem_append, ← or_assoc] at ho
    rcases ho with ho | ho
    · rcases hinv.gray o ho with hs | hf | hsc
      · exact Or.inl (by rw [he]; exact List.mem_append_left _ hs)
      · exact Or.inr (Or.inl hf)
      · exact Or.inr (Or.inr (hsc.of_le hrun.le))
    · exact Or.inl (by rw [he]; exact List.mem_append_right _ ho)

/-- Refilling the FIFO moves objects between the two gray places. -/
theorem MarkInv.fill (hinv : MarkInv heap ms₀ ms prefetch_fifo) :
    MarkInv heap ms₀ { ms with mark_stack := (fillFifo ms.mark_stack prefetch_fifo).1 }
      (fillFifo ms.mark_stack prefetch_fifo).2 := by
  obtain ⟨hcap, hmem, -, -⟩ := fillFifo_spec ms.mark_stack prefetch_fifo
  refine ⟨hinv.le.withStack _, by dsimp only; rw [hcap]; exact hinv.capacity_pos, hinv.pushed_eq,
    hinv.nodup, hinv.fresh, fun o ho => ?_⟩
  rcases hinv.gray o ho with hs | hf | hsc
  · rcases (hmem o).mpr (Or.inl hs) with h | h
    · exact Or.inl h
    · exact Or.inr (Or.inl h)
  · rcases (hmem o).mpr (Or.inr hf) with h | h
    · exact Or.inl h
    · exact Or.inr (Or.inl h)
  · exact Or.inr (Or.inr hsc)


/-- Scanning the FIFO's front, in a heap whose references lie in some space,
    returns, and keeps the invariant with the front scanned. -/
theorem MarkInv.scan {obj : Nat} (hheap : ∀ o r, some r ∈ scanObjectVisit heap o → ms₀.InSpace r)
    (hinv : MarkInv heap ms₀ ms (obj :: prefetch_fifo)) :
    ∃ ms', scanObject heap ms obj = .ok ms' ∧ MarkInv heap ms₀ ms' prefetch_fifo := by
  obtain ⟨ms', hscan, hrun, hmarked⟩ := foldlM_markObject hinv.capacity_pos (scanObjectVisit heap obj)
    (fun r hr => inSpace_of_le hinv.le (hheap obj r hr))
  have hinv' := hinv.run hrun
  refine ⟨ms', hscan, { hinv' with gray := fun o ho => ?_ }⟩
  rcases hinv'.gray o ho with hs | hf | hsc
  · exact Or.inl hs
  · -- the front leaves the FIFO scanned
    rcases List.mem_cons.mp hf with rfl | hf
    · exact Or.inr (Or.inr hmarked)
    · exact Or.inr (Or.inl hf)
  · exact Or.inr (Or.inr hsc)

/-- The loop, from the invariant, returns with an empty stack and the
    invariant with an empty FIFO; by the loop's own induction, one turn per
    scanned object. -/
theorem processMarkStackLoop_spec (hheap : ∀ o r, some r ∈ scanObjectVisit heap o → ms₀.InSpace r) :
    ∀ ms prefetch_fifo, MarkInv heap ms₀ ms prefetch_fifo →
      ∃ ms', processMarkStackLoop heap ms prefetch_fifo = .ok ms' ∧ ms'.mark_stack.entries = [] ∧
        MarkInv heap ms₀ ms' [] := by
  intro ms prefetch_fifo
  fun_induction processMarkStackLoop heap ms prefetch_fifo with
  | case1 ms prefetch_fifo mark_stack h =>
    -- the FIFO stayed empty, so the stack is empty too
    intro hinv
    have hfill := hinv.fill
    have hempty := (fillFifo_spec ms.mark_stack prefetch_fifo).2.2.2
    rw [h] at hfill hempty
    exact ⟨_, rfl, hempty (by unfold kFifoSize; exact Nat.zero_lt_succ _), hfill⟩
  | case2 ms prefetch_fifo mark_stack obj rest h e hs =>
    -- a scan of objects in some space does not fail
    intro hinv
    have hfill := hinv.fill
    rw [h] at hfill
    obtain ⟨ms', hscan, -⟩ := hfill.scan hheap
    rw [hscan] at hs
    cases hs
  | case3 ms prefetch_fifo mark_stack obj rest h ms' hs ih =>
    intro hinv
    have hfill := hinv.fill
    rw [h] at hfill
    obtain ⟨ms'', hscan, hinv'⟩ := hfill.scan hheap
    rw [hscan] at hs
    cases hs
    exact ih hinv'

end Invariant

/-! ### The closure -/

section Closure

open MarkSweep

/-- Sequential marking reaches the closure of the objects on the stack. A
    push happens only where `MarkObjectNonNull` set a clear bit, and
    resizing keeps the stack's entries. From any marks, any stack with a
    positive capacity and any roots, in a heap whose references all lie in
    some space, marking the roots and then `ProcessMarkStack` returns with an
    empty stack; the objects pushed meanwhile were each clear at the start,
    are marked, and were pushed once; and every reference of every object
    that was ever on the stack is marked. -/
theorem processMarkStack_marks_closure (heap : Heap) (ms₀ : MarkSweep) (roots : List (Option Nat))
    (hcap : 0 < ms₀.mark_stack.capacity) (hroots : ∀ r, some r ∈ roots → ms₀.InSpace r)
    (hheap : ∀ o r, some r ∈ scanObjectVisit heap o → ms₀.InSpace r) :
    (∀ (ms ms' : MarkSweep) (obj : Nat), ms.markObjectNonNull obj = .ok ms' → ms'.pushed ≠ ms.pushed →
      ms.isMarked obj = false ∧ ms'.isMarked obj = true ∧
        ms'.mark_stack.entries = ms.mark_stack.entries ++ [obj] ∧ ms'.pushed = ms.pushed ++ [obj]) ∧
    (∀ mark_stack : MarkStack, ∃ s, expandMarkStack mark_stack = .ok s ∧ s.entries = mark_stack.entries) ∧
    (∀ (mark_stack : MarkStack) (new_size : Nat), mark_stack.size ≤ new_size →
      ∃ s, resizeMarkStack mark_stack new_size = .ok s ∧ s.entries = mark_stack.entries) ∧
    ∃ ms, markThenProcess heap ms₀ roots = .ok ms ∧ ms.mark_stack.entries = [] ∧
      ∃ new, ms.pushed = ms₀.pushed ++ new ∧ new.Nodup ∧
        (∀ o ∈ new, ms₀.isMarked o = false ∧ ms.isMarked o = true) ∧
        ∀ o, o ∈ ms₀.mark_stack.entries ∨ o ∈ new →
          ∀ r, some r ∈ scanObjectVisit heap o → ms.isMarked r = true := by
  refine ⟨fun ms ms' obj h hne => ?_, fun mark_stack => ?_, fun mark_stack new_size hle => ?_, ?_⟩
  · -- a push happens only in the branch that set a clear bit
    rcases (markObjectNonNull_step h).stack with ⟨-, hp⟩ | hpush
    · exact absurd hp hne
    · exact hpush
  · obtain ⟨s, hs, he, -⟩ := expandMarkStack_entries mark_stack
    exact ⟨s, hs, he⟩
  · obtain ⟨s, hs, he, -⟩ := resizeMarkStack_entries mark_stack new_size hle
    exact ⟨s, hs, he⟩
  · -- the roots are a run of marks; the loop starts from the invariant
    obtain ⟨ms₁, hmark, hrun, -⟩ := foldlM_markObject hcap roots hroots
    obtain ⟨ms, hloop, hempty, hinv⟩ :=
      processMarkStackLoop_spec hheap ms₁ [] ((MarkInv.init hcap).run hrun)
    refine ⟨ms, ?_, hempty, newPushes ms₀ ms, hinv.pushed_eq, hinv.nodup, hinv.fresh, fun o ho => ?_⟩
    · unfold markThenProcess processMarkStack
      exact except_bind_eq_ok.mpr ⟨ms₁, hmark, hloop⟩
    · -- with the stack and the FIFO empty, every gray object is scanned
      rcases hinv.gray o ho with hs | hf | hsc
      · rw [hempty] at hs
        cases hs
      · cases hf
      · exact hsc

/-- A heap of one class whose instances hold one reference field, each to
    the object at `1`. -/
def oneFieldHeap : Heap :=
  ⟨fun _ => ⟨0, fun _ => some 1, []⟩,
    fun _ => ⟨false, false, [⟨"LNode;", [], 0, 12, 0x40000000⟩], CLASS_WALK_SUPER, []⟩, 7⟩

/-- One space over `[0, 16)` with nothing marked, and an empty stack of
    capacity one. -/
def oneSpace : MarkSweep :=
  ⟨0, 0, [⟨0, 16, fun _ => false⟩], 0, none, ⟨[], 1, by decide⟩, []⟩

/-- Every address of `[0, 16)` lies in the space. -/
theorem oneSpace_inSpace {r : Nat} (hr : r < 16) : oneSpace.InSpace r :=
  Or.inr (Or.inl ⟨_, List.mem_singleton_self _, by
    unfold MarkBitmap.hasAddress
    exact decide_eq_true ⟨Nat.zero_le r, hr⟩⟩)

/-- Every reference of the heap is to `1`. -/
theorem oneFieldHeap_refs {o r : Nat} (hr : some r ∈ scanObjectVisit oneFieldHeap o) : r = 1 := by
  rcases mem_scanObjectVisit hr with he | ⟨_, hf⟩
  · cases he
  · exact (Option.some.inj hf).symm

theorem processMarkStack_marks_closure_oneField :
    0 < oneSpace.mark_stack.capacity ∧ (∀ r, some r ∈ [some 0] → oneSpace.InSpace r) ∧
    (∀ o r, some r ∈ scanObjectVisit oneFieldHeap o → oneSpace.InSpace r) ∧
    ((∀ (ms ms' : MarkSweep) (obj : Nat), ms.markObjectNonNull obj = .ok ms' → ms'.pushed ≠ ms.pushed →
      ms.isMarked obj = false ∧ ms'.isMarked obj = true ∧
        ms'.mark_stack.entries = ms.mark_stack.entries ++ [obj] ∧ ms'.pushed = ms.pushed ++ [obj]) ∧
    (∀ mark_stack : MarkStack, ∃ s, expandMarkStack mark_stack = .ok s ∧ s.entries = mark_stack.entries) ∧
    (∀ (mark_stack : MarkStack) (new_size : Nat), mark_stack.size ≤ new_size →
      ∃ s, resizeMarkStack mark_stack new_size = .ok s ∧ s.entries = mark_stack.entries) ∧
    ∃ ms, markThenProcess oneFieldHeap oneSpace [some 0] = .ok ms ∧ ms.mark_stack.entries = [] ∧
      ∃ new, ms.pushed = oneSpace.pushed ++ new ∧ new.Nodup ∧
        (∀ o ∈ new, oneSpace.isMarked o = false ∧ ms.isMarked o = true) ∧
        ∀ o, o ∈ oneSpace.mark_stack.entries ∨ o ∈ new →
          ∀ r, some r ∈ scanObjectVisit oneFieldHeap o → ms.isMarked r = true) := by
  have hroots : ∀ r, some r ∈ [some 0] → oneSpace.InSpace r := by
    intro r hr
    rw [List.mem_singleton, Option.some.injEq] at hr
    exact oneSpace_inSpace (by omega)
  have hheap : ∀ o r, some r ∈ scanObjectVisit oneFieldHeap o → oneSpace.InSpace r := by
    intro o r hr
    rw [oneFieldHeap_refs hr]
    exact oneSpace_inSpace (by decide)
  exact ⟨by decide, hroots, hheap,
    processMarkStack_marks_closure oneFieldHeap oneSpace [some 0] (by decide) hroots hheap⟩

end Closure

end Gc

end ArtRuntime
