import Mathlib.Data.List.Sort
import Mathlib.Tactic.IntervalCases
import ArtRuntime.Core.BitScan
import ArtRuntime.Gc.CardTable

/-!
# Visiting and Sweeping a Space Bitmap

A `SpaceBitmap` keeps one bit for every `kAlignment` bytes of a heap, the
bits of a word packed from the top, so that `CLZ` finds them in address order
(space_bitmap.h). `VisitMarkedRange` calls a visitor on the marked objects of
a range a word at a time: a masked left edge word, whole middle words and a
masked right edge word, with the two edges in one word as a case of its own.
`SweepWalk` hands the objects that are live and not marked to a callback in
batches, through a buffer of `kWordSize * kBitsPerWord` pointers that it
flushes when fewer than a word's worth of slots are left.

A visitor and a callback are modelled by the calls they receive, in order: a
list of addresses, and for the sweep a list of batches. Addresses are
numbers: every address here lies between `HeapBegin()` and `HeapLimit()`,
so no sum wraps.

The fast visit is the plain scan filtered by `Test`
(`visitMarkedRange_eq_filter`): both lists increase strictly and have the
same members, and a strictly increasing list is determined by its members.
The sweep writes a word's garbage into a buffer that has at least a word's
worth of slots left, so every write is inside it, and the batches put
together are the garbage of the words it covers, in address order. It
returns at once when the range is empty, even when the range's one end lies
inside a word (`sweepWalk_eq_garbage`).

## Main definitions

* `SpaceBitmap`: The heap start and the words of a bitmap.
* `SpaceBitmap.test`, `SpaceBitmap.visitRange`: `Test` and the plain scan.
* `SpaceBitmap.visitBits`, `SpaceBitmap.visitMarkedRange`: The CLZ loop and
  `VisitMarkedRange`.
* `SpaceBitmap.sweepBits`, `SpaceBitmap.sweepWord`, `SpaceBitmap.sweepWalk`:
  `SweepWalk`, its loop over one word, and one round of its loop over words.
* `SpaceBitmap.garbage`: The addresses a sweep should hand on.

## Theorems

* `SpaceBitmap.visitBits_eq`: The CLZ loop visits the set bits of a word in
  address order.
* `SpaceBitmap.test_addr`: `Test` reads the bit of an aligned address.
* `SpaceBitmap.visitMarkedRange_eq_filter`: The fast visit is the plain scan
  filtered by `Test`.
* `SpaceBitmap.sweepWalk_eq_garbage`: The sweep's batches are small, every
  write stays in the buffer, and together they are the garbage of the words
  of the range.
* `SpaceBitmap.sweepWalk_skips_empty_range`: An empty range inside a word
  sweeps nothing, not that word's garbage.
-/

namespace ArtRuntime

namespace Gc

open WordBits

/-- kBitsPerWord: a word is 32 bits on the targets of this runtime. -/
def kBitsPerWord : Nat := 32

/-- `static_cast<size_t>(kWordHighBitMask)`: the top bit of a word. -/
def kWordHighBitMask : UInt32 := 0x80000000

/-- A SpaceBitmap: the first heap address it covers, and its words,
    `bitmap_size_ / kWordSize` of them. -/
structure SpaceBitmap where
  heapBegin : Nat
  bitmap : List UInt32

namespace SpaceBitmap

/-- kAlignment. -/
def kAlignment : Nat := 8

/-- OffsetToIndex. -/
def offsetToIndex (offset : Nat) : Nat := offset / kAlignment / kBitsPerWord

/-- IndexToOffset. -/
def indexToOffset (index : Nat) : Nat := index * kAlignment * kBitsPerWord

/-- OffsetToMask: the bit of an offset, packed from the top. -/
def offsetToMask (offset : Nat) : UInt32 :=
  kWordHighBitMask >>> ((offset / kAlignment) % kBitsPerWord).toUInt32

/-- `Begin()[index]`. -/
def word (b : SpaceBitmap) (index : Nat) : UInt32 := b.bitmap.getD index 0

/-- HeapLimit: one past the last address the bitmap covers. -/
def heapLimit (b : SpaceBitmap) : Nat := b.heapBegin + indexToOffset b.bitmap.length

/-- Test. -/
def test (b : SpaceBitmap) (addr : Nat) : Bool :=
  b.word (offsetToIndex (addr - b.heapBegin)) &&& offsetToMask (addr - b.heapBegin) != 0

/-- VisitRange: every `kAlignment`-th address from `visit_begin` below
    `visit_end`. -/
def visitRange (visit_begin visit_end : Nat) : List Nat :=
  List.range' visit_begin ((visit_end - visit_begin + kAlignment - 1) / kAlignment) kAlignment

/-! ### The CLZ loop -/

/-- The loop of VisitMarkedRange over one word: while bits are left, visit
    the object of the highest and flip it off. A word has 32 bits; `fuel`
    bounds the rounds. The source's `do ... while` loops are entered on a
    nonzero word only, where they run as this `while` loop. -/
def visitBits : Nat → Nat → UInt32 → List Nat
  | 0, _, _ => []
  | fuel + 1, ptr_base, w =>
    if w = 0 then []
    else
      let shift := clz w
      (ptr_base + shift * kAlignment) ::
        visitBits fuel ptr_base (w ^^^ (kWordHighBitMask >>> shift.toUInt32))

/-- The loop visits the set bits of the word, highest first, that is in
    address order. -/
theorem visitBits_eq : ∀ (fuel ptr_base : Nat) (w : UInt32), (w = 0 ∨ w.toNat.log2 < fuel) →
    visitBits fuel ptr_base w = (topPositions w).map fun k => ptr_base + k * kAlignment
  | 0, ptr_base, w, hfuel => by
    obtain rfl := hfuel.resolve_right (Nat.not_lt_zero _)
    simp [visitBits]
  | fuel + 1, ptr_base, w, hfuel => by
    by_cases hw : w = 0
    · subst hw
      simp [visitBits]
    · -- the rest is the word with its highest bit cleared, and a lower highest bit
      have hrest : w &&& ~~~((0x80000000 : UInt32) >>> (clz w).toUInt32) = 0 ∨
          (w &&& ~~~((0x80000000 : UInt32) >>> (clz w).toUInt32)).toNat.log2 < fuel := by
        by_cases hy : w &&& ~~~((0x80000000 : UInt32) >>> (clz w).toUInt32) = 0
        · exact Or.inl hy
        · have := log2_clearHighest_lt w hy
          have := hfuel.resolve_left hw
          omega
      rw [visitBits, if_neg hw]
      dsimp only
      rw [kWordHighBitMask, xor_highBit_clz hw, visitBits_eq fuel _ _ hrest,
        topPositions_of_ne_zero hw, List.map_cons]

theorem mem_visitBits {ptr_base : Nat} {w : UInt32} {a : Nat} :
    a ∈ visitBits 32 ptr_base w ↔ ∃ k, k < 32 ∧ w.toNat.testBit (31 - k) = true ∧
      a = ptr_base + k * kAlignment := by
  rw [visitBits_eq 32 ptr_base w (Or.inr (log2_toNat_lt w)), List.mem_map]
  constructor
  · rintro ⟨k, hk, rfl⟩
    exact ⟨k, (mem_topPositions.mp hk).1, (mem_topPositions.mp hk).2, rfl⟩
  · rintro ⟨k, hk, hbit, rfl⟩
    exact ⟨k, mem_topPositions.mpr ⟨hk, hbit⟩, rfl⟩

theorem visitBits_pairwise (ptr_base : Nat) (w : UInt32) :
    (visitBits 32 ptr_base w).Pairwise (· < ·) := by
  rw [visitBits_eq 32 ptr_base w (Or.inr (log2_toNat_lt w)), List.pairwise_map]
  exact (topPositions_pairwise w).imp fun h => by unfold kAlignment; omega

/-! ### Addresses and bits -/

/-- The bit of bit index `n`: bit `31 - n % 32` of word `n / 32`, the bit of
    the object at `heapBegin + n * kAlignment`. -/
def bit (b : SpaceBitmap) (n : Nat) : Bool := (b.word (n / 32)).toNat.testBit (31 - n % 32)

theorem offsetToIndex_mul (n : Nat) : offsetToIndex (n * kAlignment) = n / 32 := by
  simp only [offsetToIndex, kAlignment, kBitsPerWord]
  omega

theorem offsetToMask_mul (n : Nat) :
    offsetToMask (n * kAlignment) = (0x80000000 : UInt32) >>> (n % 32).toUInt32 := by
  simp only [offsetToMask, kWordHighBitMask, kAlignment, kBitsPerWord]
  rw [Nat.mul_div_cancel _ (by decide)]

/-- Test reads bit `31 - n % 32` of word `n / 32` at the address of bit
    index `n`. -/
theorem test_addr (b : SpaceBitmap) (n : Nat) :
    b.test (b.heapBegin + n * kAlignment) = (b.word (n / 32)).toNat.testBit (31 - n % 32) := by
  have hoff : b.heapBegin + n * kAlignment - b.heapBegin = n * kAlignment := by omega
  have hk : n % 32 < 32 := Nat.mod_lt _ (by decide)
  rw [test, hoff, offsetToIndex_mul, offsetToMask_mul]
  cases hbit : (b.word (n / 32)).toNat.testBit (31 - n % 32)
  · rw [(and_highBit_eq_zero_iff _ hk).mpr hbit]
    rfl
  · have hne := (and_highBit_eq_zero_iff _ hk).not.mpr (by rw [hbit]; decide)
    simpa using hne

/-! ### VisitMarkedRange -/

/-- SpaceBitmap::VisitMarkedRange: the objects the visitor is called on, in
    order. -/
def visitMarkedRange (b : SpaceBitmap) (visit_begin visit_end : Nat) : List Nat :=
  let bit_index_start := (visit_begin - b.heapBegin) / kAlignment
  let bit_index_end := (visit_end - b.heapBegin - 1) / kAlignment
  let word_start := bit_index_start / kBitsPerWord
  let word_end := bit_index_end / kBitsPerWord
  -- trim off left_bits of left bits; the mask is computed in int
  let left_bits := bit_index_start &&& (kBitsPerWord - 1)
  let edge_word :=
    if left_bits ≠ 0 then
      b.word word_start &&& (((1 : Int32) <<< (kBitsPerWord - left_bits).toInt32) - 1).toUInt32
    else b.word word_start
  -- the left edge is visited here only when the right edge is in another word
  let left :=
    if edge_word ≠ 0 ∧ word_start < word_end then
      visitBits 32 (indexToOffset word_start + b.heapBegin) edge_word
    else []
  let word_start := word_start + 1
  let middle := (List.range' word_start (word_end - word_start)).flatMap fun i =>
    if b.word i ≠ 0 then visitBits 32 (indexToOffset i + b.heapBegin) (b.word i) else []
  -- the right edge, and the left edge with it when both are in one word
  let right_bits := bit_index_end &&& (kBitsPerWord - 1)
  let edge_word := if word_start ≤ word_end then b.word word_end else edge_word
  let edge_word := edge_word &&& ~~~((kWordHighBitMask >>> right_bits.toUInt32) - 1)
  left ++ middle ++ visitBits 32 (indexToOffset word_end + b.heapBegin) edge_word

/-- The left edge mask keeps the positions from `left_bits` on: in `int`,
    `(1 << (32 - left_bits)) - 1` wraps only at `left_bits = 1`, to the low 31
    bits. -/
theorem toNat_leftEdgeMask {left_bits : Nat} (h0 : 0 < left_bits) (h : left_bits < 32) :
    (((1 : Int32) <<< (kBitsPerWord - left_bits).toInt32) - 1).toUInt32.toNat =
      2 ^ (32 - left_bits) - 1 := by
  interval_cases left_bits <;> rfl

/-- The left edge word keeps the bits of the positions from `left_bits` on. -/
theorem testBit_leftEdge (w : UInt32) {left_bits k : Nat} (hl : left_bits < 32) (hk : k < 32) :
    (if left_bits ≠ 0 then
        w &&& (((1 : Int32) <<< (kBitsPerWord - left_bits).toInt32) - 1).toUInt32
      else w).toNat.testBit (31 - k) = (w.toNat.testBit (31 - k) && decide (left_bits ≤ k)) := by
  by_cases h0 : left_bits = 0
  · simp [h0]
  · rw [if_pos h0, UInt32.toNat_and, toNat_leftEdgeMask (by omega) hl, Nat.testBit_and,
      Nat.testBit_two_pow_sub_one]
    congr 1
    simp only [decide_eq_decide]
    omega

/-- The right edge mask keeps the positions up to `right_bits`. -/
theorem testBit_rightEdge (w : UInt32) {right_bits k : Nat} (hr : right_bits < 32) (hk : k < 32) :
    (w &&& ~~~((kWordHighBitMask >>> right_bits.toUInt32) - 1)).toNat.testBit (31 - k) =
      (w.toNat.testBit (31 - k) && decide (k ≤ right_bits)) := by
  have hshift : (kWordHighBitMask >>> right_bits.toUInt32).toNat = 2 ^ (31 - right_bits) := by
    rw [UInt32.toNat_shiftRight, Nat.shiftRight_eq_div_pow, Nat.toUInt32_eq, UInt32.toNat_ofNat',
      Nat.mod_eq_of_lt (by omega : right_bits < 2 ^ 32), Nat.mod_eq_of_lt hr, kWordHighBitMask,
      show (0x80000000 : UInt32).toNat = 2 ^ 31 from rfl, Nat.pow_div (by omega) (by decide)]
  have hlow : ((kWordHighBitMask >>> right_bits.toUInt32) - 1).toNat = 2 ^ (31 - right_bits) - 1 := by
    rw [UInt32.toNat_sub_of_le _ _ (by rw [UInt32.le_iff_toNat_le, hshift]; exact Nat.one_le_two_pow),
      hshift]
    rfl
  rw [UInt32.toNat_and, Nat.testBit_and, testBit_not, hlow, Nat.testBit_two_pow_sub_one]
  congr 1
  have h32 : 31 - k < 32 := by omega
  by_cases hkr : k ≤ right_bits
  · simp [h32, hkr, show ¬ 31 - k < 31 - right_bits by omega]
  · simp [h32, hkr, show 31 - k < 31 - right_bits by omega]

theorem ite_visitBits (c : Prop) [Decidable c] (ptr_base : Nat) (w : UInt32) (hc : w ≠ 0 → c) :
    (if c then visitBits 32 ptr_base w else []) = visitBits 32 ptr_base w := by
  by_cases hw : w = 0
  · subst hw
    simp [visitBits]
  · rw [if_pos (hc hw)]

/-- The objects of word `i`'s set bits, as bit indices: bit `31 - n % 32` of
    word `n / 32` is the object at `heapBegin + n * kAlignment`. -/
theorem mem_visitBits_word {hb i : Nat} {u : UInt32} {a : Nat} :
    a ∈ visitBits 32 (indexToOffset i + hb) u ↔
      ∃ n, n / 32 = i ∧ u.toNat.testBit (31 - n % 32) = true ∧ a = hb + n * kAlignment := by
  rw [mem_visitBits]
  constructor
  · rintro ⟨k, hk, hbit, rfl⟩
    refine ⟨32 * i + k, by omega, by rwa [show (32 * i + k) % 32 = k by omega], ?_⟩
    simp only [indexToOffset, kAlignment, kBitsPerWord]
    ring
  · rintro ⟨n, rfl, hbit, rfl⟩
    refine ⟨n % 32, Nat.mod_lt _ (by decide), hbit, ?_⟩
    simp only [indexToOffset, kAlignment, kBitsPerWord]
    omega

/-- A word whose bits are those of word `i` at the positions with `P`: the
    objects the loop visits for it, as bit indices. -/
theorem mem_visitBits_of_testBit (b : SpaceBitmap) {i a : Nat} {u : UInt32} {P : Nat → Prop}
    [DecidablePred P]
    (hu : ∀ k < 32, u.toNat.testBit (31 - k) = ((b.word i).toNat.testBit (31 - k) && decide (P k))) :
    a ∈ visitBits 32 (indexToOffset i + b.heapBegin) u ↔
      ∃ n, n / 32 = i ∧ P (n % 32) ∧ (b.word (n / 32)).toNat.testBit (31 - n % 32) = true ∧
        a = b.heapBegin + n * kAlignment := by
  rw [mem_visitBits_word]
  constructor
  · rintro ⟨n, rfl, hbit, rfl⟩
    rw [hu _ (Nat.mod_lt _ (by decide)), Bool.and_eq_true, decide_eq_true_eq] at hbit
    exact ⟨n, rfl, hbit.2, hbit.1, rfl⟩
  · rintro ⟨n, rfl, hp, hbit, rfl⟩
    refine ⟨n, rfl, ?_, rfl⟩
    rw [hu _ (Nat.mod_lt _ (by decide)), hbit, decide_eq_true hp, Bool.and_self]

theorem and_kBitsPerWord_sub_one (x : Nat) : x &&& (kBitsPerWord - 1) = x % 32 :=
  Nat.and_two_pow_sub_one_eq_mod x 5

/-- The objects VisitMarkedRange visits, as bit indices: those between the
    bit indices of the two ends whose bits are set. -/
theorem mem_visitMarkedRange (b : SpaceBitmap) {visit_begin visit_end : Nat}
    (hlt : visit_begin < visit_end) (a : Nat) :
    a ∈ b.visitMarkedRange visit_begin visit_end ↔
      ∃ n, (visit_begin - b.heapBegin) / kAlignment ≤ n ∧
        n ≤ (visit_end - b.heapBegin - 1) / kAlignment ∧
        (b.word (n / 32)).toNat.testBit (31 - n % 32) = true ∧ a = b.heapBegin + n * kAlignment := by
  have hSE : (visit_begin - b.heapBegin) / kAlignment ≤ (visit_end - b.heapBegin - 1) / kAlignment :=
    Nat.div_le_div_right (by omega)
  dsimp only [visitMarkedRange]
  generalize (visit_begin - b.heapBegin) / kAlignment = S at hSE ⊢
  generalize (visit_end - b.heapBegin - 1) / kAlignment = E at hSE ⊢
  have hdiv : ∀ x, x / kBitsPerWord = x / 32 := fun _ => rfl
  simp only [hdiv, and_kBitsPerWord_sub_one]
  have hl : S % 32 < 32 := Nat.mod_lt _ (by decide)
  have hr : E % 32 < 32 := Nat.mod_lt _ (by decide)
  -- the word of each bit index, read through the masks
  have hleft := fun k (hk : k < 32) => testBit_leftEdge (b.word (S / 32)) hl hk
  have hmid : ∀ i, ∀ k < 32, (b.word i).toNat.testBit (31 - k) =
      ((b.word i).toNat.testBit (31 - k) && decide True) := by simp
  rcases Nat.lt_or_ge (S / 32) (E / 32) with hws | hws
  · -- the edges are in different words: left edge, middle words, right edge
    rw [ite_visitBits _ _ _ (fun hne => ⟨hne, hws⟩), if_pos (by omega : S / 32 + 1 ≤ E / 32)]
    have hright := fun k (hk : k < 32) => testBit_rightEdge (b.word (E / 32)) hr hk
    simp only [List.mem_append, List.mem_flatMap, List.mem_range'_1,
      mem_visitBits_of_testBit b hleft, mem_visitBits_of_testBit b hright]
    constructor
    · rintro ((⟨n, hn, hp, hbit, rfl⟩ | ⟨i, hi, ha⟩) | ⟨n, hn, hp, hbit, rfl⟩)
      · exact ⟨n, by omega, by omega, hbit, rfl⟩
      · rw [ite_visitBits _ _ _ id, mem_visitBits_of_testBit b (hmid i)] at ha
        obtain ⟨n, hn, -, hbit, rfl⟩ := ha
        exact ⟨n, by omega, by omega, hbit, rfl⟩
      · exact ⟨n, by omega, by omega, hbit, rfl⟩
    · rintro ⟨n, hSn, hnE, hbit, rfl⟩
      by_cases hfirst : n / 32 = S / 32
      · exact Or.inl (Or.inl ⟨n, hfirst, by omega, hbit, rfl⟩)
      by_cases hlast : n / 32 = E / 32
      · exact Or.inr ⟨n, hlast, by omega, hbit, rfl⟩
      · refine Or.inl (Or.inr ⟨n / 32, by omega, ?_⟩)
        rw [ite_visitBits _ _ _ id, mem_visitBits_of_testBit b (hmid (n / 32))]
        exact ⟨n, rfl, trivial, hbit, rfl⟩
  · -- both edges are in one word: only the right-edge loop runs, on both masks
    have hsame : S / 32 = E / 32 := by omega
    rw [if_neg (fun h => by omega), if_neg (by omega : ¬ S / 32 + 1 ≤ E / 32),
      show E / 32 - (S / 32 + 1) = 0 by omega]
    have hboth : ∀ k < 32, ((if S % 32 ≠ 0 then
        b.word (S / 32) &&& (((1 : Int32) <<< (kBitsPerWord - S % 32).toInt32) - 1).toUInt32
        else b.word (S / 32)) &&& ~~~((kWordHighBitMask >>> (E % 32).toUInt32) - 1)).toNat.testBit
          (31 - k) = ((b.word (E / 32)).toNat.testBit (31 - k) && decide (S % 32 ≤ k ∧ k ≤ E % 32)) := by
      intro k hk
      rw [testBit_rightEdge _ hr hk, hleft k hk, hsame, Bool.and_assoc, Bool.decide_and]
    simp only [List.range'_zero, List.flatMap_nil, List.nil_append, mem_visitBits_of_testBit b hboth]
    constructor
    · rintro ⟨n, hn, hp, hbit, rfl⟩
      exact ⟨n, by omega, by omega, hbit, rfl⟩
    · rintro ⟨n, hSn, hnE, hbit, rfl⟩
      exact ⟨n, by omega, by omega, hbit, rfl⟩

/-- Objects in a lower word come first. -/
theorem addr_lt_of_div_lt (hb : Nat) {n m : Nat} (h : n / 32 < m / 32) :
    hb + n * kAlignment < hb + m * kAlignment := by
  unfold kAlignment
  omega

/-- VisitMarkedRange visits in strictly increasing address order: each word
    in order, and the bits of a word in order. -/
theorem visitMarkedRange_pairwise (b : SpaceBitmap) {visit_begin visit_end : Nat}
    (hlt : visit_begin < visit_end) :
    (b.visitMarkedRange visit_begin visit_end).Pairwise (· < ·) := by
  have hSE : (visit_begin - b.heapBegin) / kAlignment ≤ (visit_end - b.heapBegin - 1) / kAlignment :=
    Nat.div_le_div_right (by omega)
  dsimp only [visitMarkedRange]
  generalize (visit_begin - b.heapBegin) / kAlignment = S at hSE ⊢
  generalize (visit_end - b.heapBegin - 1) / kAlignment = E at hSE ⊢
  have hdiv : ∀ x, x / kBitsPerWord = x / 32 := fun _ => rfl
  simp only [hdiv, and_kBitsPerWord_sub_one]
  have hl : S % 32 < 32 := Nat.mod_lt _ (by decide)
  have hleft := fun k (hk : k < 32) => testBit_leftEdge (b.word (S / 32)) hl hk
  have hmid : ∀ i, ∀ k < 32, (b.word i).toNat.testBit (31 - k) =
      ((b.word i).toNat.testBit (31 - k) && decide True) := by simp
  rcases Nat.lt_or_ge (S / 32) (E / 32) with hws | hws
  · rw [ite_visitBits _ _ _ (fun hne => ⟨hne, hws⟩), if_pos (by omega : S / 32 + 1 ≤ E / 32)]
    have hright := fun k (hk : k < 32) =>
      testBit_rightEdge (b.word (E / 32)) (Nat.mod_lt E (by decide)) hk
    -- every object of a middle word i lies in word i
    have hmiddle : ∀ i, ∀ x ∈ (if b.word i ≠ 0 then
        visitBits 32 (indexToOffset i + b.heapBegin) (b.word i) else []),
        ∃ n, n / 32 = i ∧ x = b.heapBegin + n * kAlignment := by
      intro i x hx
      rw [ite_visitBits _ _ _ id, mem_visitBits_of_testBit b (hmid i)] at hx
      obtain ⟨n, hn, -, -, rfl⟩ := hx
      exact ⟨n, hn, rfl⟩
    refine List.pairwise_append.mpr ⟨List.pairwise_append.mpr ⟨visitBits_pairwise _ _,
      List.pairwise_flatMap.mpr ⟨fun i _ => ?_, ?_⟩, ?_⟩, visitBits_pairwise _ _, ?_⟩
    · rw [ite_visitBits _ _ _ id]
      exact visitBits_pairwise _ _
    · refine (List.pairwise_lt_range' 1).imp fun hij x hx y hy => ?_
      obtain ⟨n, rfl, rfl⟩ := hmiddle _ x hx
      obtain ⟨m, hm, rfl⟩ := hmiddle _ y hy
      exact addr_lt_of_div_lt _ (by omega)
    · intro x hx y hy
      obtain ⟨n, hn, -, -, rfl⟩ := (mem_visitBits_of_testBit b hleft).mp hx
      obtain ⟨i, hi, hy⟩ := List.mem_flatMap.mp hy
      obtain ⟨m, rfl, rfl⟩ := hmiddle i y hy
      rw [List.mem_range'_1] at hi
      exact addr_lt_of_div_lt _ (by omega)
    · intro x hx y hy
      obtain ⟨m, hm, -, -, rfl⟩ := (mem_visitBits_of_testBit b hright).mp hy
      rcases List.mem_append.mp hx with hx | hx
      · obtain ⟨n, hn, -, -, rfl⟩ := (mem_visitBits_of_testBit b hleft).mp hx
        exact addr_lt_of_div_lt _ (by omega)
      · obtain ⟨i, hi, hx⟩ := List.mem_flatMap.mp hx
        obtain ⟨n, rfl, rfl⟩ := hmiddle i x hx
        rw [List.mem_range'_1] at hi
        exact addr_lt_of_div_lt _ (by omega)
  · -- both edges in one word: one loop
    rw [if_neg (fun h => by omega), if_neg (by omega : ¬ S / 32 + 1 ≤ E / 32),
      show E / 32 - (S / 32 + 1) = 0 by omega]
    simp only [List.range'_zero, List.flatMap_nil, List.nil_append]
    exact visitBits_pairwise _ _

/-- The fast visit is the plain scan filtered by Test: for every bitmap and
    every aligned range of the heap, the visitor is called once for each
    marked object of the range, in increasing address order, and on nothing
    else. -/
theorem visitMarkedRange_eq_filter (b : SpaceBitmap) {visit_begin visit_end : Nat}
    (hbegin : b.heapBegin ≤ visit_begin) (hlt : visit_begin < visit_end)
    (hab : (visit_begin - b.heapBegin) % kAlignment = 0)
    (hae : (visit_end - b.heapBegin) % kAlignment = 0) :
    b.visitMarkedRange visit_begin visit_end = (visitRange visit_begin visit_end).filter b.test ∧
      (b.visitMarkedRange visit_begin visit_end).Pairwise (· < ·) ∧
      ∀ a, a ∈ b.visitMarkedRange visit_begin visit_end ↔
        visit_begin ≤ a ∧ a < visit_end ∧ (a - b.heapBegin) % kAlignment = 0 ∧ b.test a = true := by
  have hmem := mem_visitMarkedRange b hlt
  unfold kAlignment at hab hae hmem
  -- the members of both lists, as addresses
  have hiff : ∀ a, a ∈ b.visitMarkedRange visit_begin visit_end ↔
      visit_begin ≤ a ∧ a < visit_end ∧ (a - b.heapBegin) % kAlignment = 0 ∧ b.test a = true := by
    intro a
    rw [hmem]
    constructor
    · rintro ⟨n, hSn, hnE, hbit, rfl⟩
      refine ⟨by omega, by omega, by unfold kAlignment; omega, ?_⟩
      rw [show b.heapBegin + n * 8 = b.heapBegin + n * kAlignment from rfl, test_addr, hbit]
    · rintro ⟨hva, hav, haa, htest⟩
      unfold kAlignment at haa
      have ha : a = b.heapBegin + (a - b.heapBegin) / 8 * kAlignment := by unfold kAlignment; omega
      rw [ha, test_addr] at htest
      exact ⟨(a - b.heapBegin) / 8, by omega, by omega, htest, by unfold kAlignment at ha; exact ha⟩
  have hspec : ∀ a, a ∈ (visitRange visit_begin visit_end).filter b.test ↔
      visit_begin ≤ a ∧ a < visit_end ∧ (a - b.heapBegin) % kAlignment = 0 ∧ b.test a = true := by
    intro a
    rw [List.mem_filter, visitRange, List.mem_range']
    unfold kAlignment
    constructor
    · rintro ⟨⟨j, hj, rfl⟩, htest⟩
      exact ⟨by omega, by omega, by omega, htest⟩
    · rintro ⟨hva, hav, haa, htest⟩
      exact ⟨⟨(a - visit_begin) / 8, by omega, by omega⟩, htest⟩
  have hsorted := visitMarkedRange_pairwise b hlt
  refine ⟨hsorted.eq_of_mem_iff ((List.pairwise_lt_range' kAlignment (by decide)).filter _) fun a => ?_, hsorted, hiff⟩
  rw [hiff, hspec]

/-- A bitmap of two words over a heap at 4096: the objects at 4096 and 4344
    in the first word, and the first four objects of the second. -/
def twoWordBitmap : SpaceBitmap := ⟨4096, [0x80000001, 0xF0000000]⟩

theorem visitMarkedRange_eq_filter_twoWords :
    twoWordBitmap.heapBegin ≤ 4104 ∧ 4104 < 4368 ∧
      (4104 - twoWordBitmap.heapBegin) % kAlignment = 0 ∧
      (4368 - twoWordBitmap.heapBegin) % kAlignment = 0 ∧
      (twoWordBitmap.visitMarkedRange 4104 4368 = (visitRange 4104 4368).filter twoWordBitmap.test ∧
        (twoWordBitmap.visitMarkedRange 4104 4368).Pairwise (· < ·) ∧
        ∀ a, a ∈ twoWordBitmap.visitMarkedRange 4104 4368 ↔
          4104 ≤ a ∧ a < 4368 ∧ (a - twoWordBitmap.heapBegin) % kAlignment = 0 ∧
            twoWordBitmap.test a = true) :=
  ⟨by decide, by decide, by decide, by decide,
    visitMarkedRange_eq_filter twoWordBitmap (by decide) (by decide) (by decide) (by decide)⟩

/-- The range from the second object to the one before the third of the
    second word: the left edge trims the object at 4096, the right edge those
    from 4368. -/
example : twoWordBitmap.visitMarkedRange 4104 4368 = [4344, 4352, 4360] := by decide

/-! ### SweepWalk -/

/-- The objects of the set bits of consecutive words, word after word, as
    bit indices. -/
theorem mem_flatMap_visitBits {hb w cnt a : Nat} {u : Nat → UInt32} :
    a ∈ (List.range' w cnt).flatMap (fun i => visitBits 32 (indexToOffset i + hb) (u i)) ↔
      ∃ n, w ≤ n / 32 ∧ n / 32 < w + cnt ∧ (u (n / 32)).toNat.testBit (31 - n % 32) = true ∧
        a = hb + n * kAlignment := by
  rw [List.mem_flatMap]
  constructor
  · rintro ⟨i, hi, ha⟩
    obtain ⟨n, rfl, hbit, rfl⟩ := mem_visitBits_word.mp ha
    rw [List.mem_range'_1] at hi
    exact ⟨n, hi.1, hi.2, hbit, rfl⟩
  · rintro ⟨n, hw, hcnt, hbit, rfl⟩
    exact ⟨n / 32, List.mem_range'_1.mpr ⟨hw, hcnt⟩, mem_visitBits_word.mpr ⟨n, rfl, hbit, rfl⟩⟩

theorem flatMap_visitBits_pairwise (hb w cnt : Nat) (u : Nat → UInt32) :
    ((List.range' w cnt).flatMap fun i =>
      visitBits 32 (indexToOffset i + hb) (u i)).Pairwise (· < ·) := by
  refine List.pairwise_flatMap.mpr ⟨fun i _ => visitBits_pairwise _ _,
    (List.pairwise_lt_range' 1).imp fun hij x hx y hy => ?_⟩
  obtain ⟨n, rfl, -, rfl⟩ := mem_visitBits_word.mp hx
  obtain ⟨m, hm, -, rfl⟩ := mem_visitBits_word.mp hy
  exact addr_lt_of_div_lt _ (by omega)

/-- buffer_size: `kWordSize * kBitsPerWord` pointers. -/
def kBufferSize : Nat := kWordSize * kBitsPerWord

/-- pointer_buf up to `pb`, and the batches the callback has received. -/
structure SweepBuffer where
  buf : List Nat
  batches : List (List Nat)

/-- `*pb++ = obj`: a write into pointer_buf; none past its end. -/
def SweepBuffer.push (s : SweepBuffer) (obj : Nat) : Option SweepBuffer :=
  if s.buf.length < kBufferSize then some { s with buf := s.buf ++ [obj] } else none

/-- The callback on the buffer's pointers, and `pb = &pointer_buf[0]`. -/
def SweepBuffer.flush (s : SweepBuffer) : SweepBuffer := ⟨[], s.batches ++ [s.buf]⟩

/-- The loop of SweepWalk over one word's garbage: flip off the highest bit,
    then write its object. None when a write falls outside pointer_buf, or
    when the loop runs out of `fuel`. -/
def sweepBits : Nat → Nat → UInt32 → SweepBuffer → Option SweepBuffer
  | 0, _, _, _ => none
  | fuel + 1, ptr_base, garbage, s => do
    let shift := clz garbage
    let garbage := garbage ^^^ (kWordHighBitMask >>> shift.toUInt32)
    let s ← s.push (ptr_base + shift * kAlignment)
    if garbage ≠ 0 then sweepBits fuel ptr_base garbage s else some s

/-- One round of SweepWalk's loop over words: the objects of word `i` that
    are live and not marked, then a flush when fewer than a word's worth of
    slots are left. -/
def sweepWord (live mark : SpaceBitmap) (s : SweepBuffer) (i : Nat) : Option SweepBuffer :=
  let garbage := live.word i &&& ~~~(mark.word i)
  if garbage ≠ 0 then do
    let s ← sweepBits 32 (indexToOffset i + live.heapBegin) garbage s
    if s.buf.length ≥ kBufferSize - kBitsPerWord then some s.flush else some s
  else some s

/-- SpaceBitmap::SweepWalk, and BaseBitmap::SweepWalk, which has the same
    text: the batches the callback receives. None when a CHECK fails or a
    write falls outside pointer_buf. -/
def sweepWalk (live mark : SpaceBitmap) (sweep_begin sweep_end : Nat) :
    Option (List (List Nat)) :=
  if live.heapBegin ≠ mark.heapBegin ∨ live.bitmap.length ≠ mark.bitmap.length ∨
      sweep_end < sweep_begin ∨ sweep_begin < live.heapBegin then none
  else if sweep_end ≤ sweep_begin then some []
  else
    let start := offsetToIndex (sweep_begin - live.heapBegin)
    let end_ := offsetToIndex (sweep_end - live.heapBegin - 1)
    if live.bitmap.length ≤ end_ then none
    else do
      let s ← (List.range' start (end_ + 1 - start)).foldlM (sweepWord live mark) ⟨[], []⟩
      some (if s.buf.length > 0 then s.flush.batches else s.batches)

/-- The objects of the words `first` to `last` that are live and not marked,
    in address order: what a sweep of those words should hand on. -/
def garbage (live mark : SpaceBitmap) (first last : Nat) : List Nat :=
  (visitRange (indexToOffset first + live.heapBegin)
    (indexToOffset (last + 1) + live.heapBegin)).filter fun a => live.test a && !mark.test a

/-- A word's loop writes the word's garbage after what the buffer holds, when
    the buffer has room for it. -/
theorem sweepBits_eq : ∀ (fuel ptr_base : Nat) (g : UInt32) (s : SweepBuffer), g ≠ 0 →
    g.toNat.log2 < fuel → s.buf.length + (topPositions g).length ≤ kBufferSize →
    sweepBits fuel ptr_base g s = some ⟨s.buf ++ visitBits 32 ptr_base g, s.batches⟩
  | 0, _, _, _, _, hfuel, _ => absurd hfuel (Nat.not_lt_zero _)
  | fuel + 1, ptr_base, g, s, hg, hfuel, hroom => by
    have hpos := topPositions_of_ne_zero hg
    have hrest := visitBits_eq 32 ptr_base g (Or.inr (log2_toNat_lt g))
    rw [hpos, List.map_cons] at hrest
    rw [hpos, List.length_cons] at hroom
    -- the first write has room, since the word has at least one set bit
    have hpush : s.push (ptr_base + clz g * kAlignment) =
        some { s with buf := s.buf ++ [ptr_base + clz g * kAlignment] } := by
      rw [SweepBuffer.push, if_pos (by omega)]
    rw [sweepBits]
    simp only [hpush, Option.bind_eq_bind, Option.bind_some, kWordHighBitMask, xor_highBit_clz hg]
    by_cases hg' : g &&& ~~~((0x80000000 : UInt32) >>> (clz g).toUInt32) = 0
    · rw [if_neg (not_not.mpr hg'), hrest, hg', topPositions_zero, List.map_nil]
    · have hlog := log2_clearHighest_lt g hg'
      rw [if_pos hg', sweepBits_eq fuel ptr_base _ _ hg' (by omega)
          (by simp only [List.length_append, List.length_singleton]; omega),
        hrest, visitBits_eq 32 ptr_base _ (Or.inr (log2_toNat_lt _)), List.append_assoc,
        List.singleton_append]

/-- What the sweep keeps from one word to the next: fewer than a word's
    worth of slots are free only right before a flush, and every batch
    handed on is non-empty and fits the buffer. -/
structure SweepBuffer.Room (s : SweepBuffer) : Prop where
  buf_lt : s.buf.length < kBufferSize - kBitsPerWord
  batches_ok : ∀ batch ∈ s.batches, batch ≠ [] ∧ batch.length ≤ kBufferSize

theorem length_visitBits_le (ptr_base : Nat) (w : UInt32) : (visitBits 32 ptr_base w).length ≤ 32 := by
  rw [visitBits_eq 32 ptr_base w (Or.inr (log2_toNat_lt w)), List.length_map]
  exact length_topPositions_le w

/-- One word: its garbage is written after what the buffer holds, and the
    buffer is flushed when it is that full. -/
theorem sweepWord_spec (live mark : SpaceBitmap) {s : SweepBuffer} (hs : s.Room) (i : Nat) :
    ∃ s', sweepWord live mark s i = some s' ∧ s'.Room ∧
      s'.batches.flatten ++ s'.buf = s.batches.flatten ++ s.buf ++
        visitBits 32 (indexToOffset i + live.heapBegin) (live.word i &&& ~~~(mark.word i)) := by
  have hroom := hs.buf_lt
  unfold kBufferSize kWordSize kBitsPerWord at hroom
  by_cases hg : live.word i &&& ~~~(mark.word i) = 0
  · refine ⟨s, by rw [sweepWord, if_neg (not_not.mpr hg)], hs, ?_⟩
    rw [hg, visitBits_eq 32 _ 0 (Or.inl rfl), topPositions_zero, List.map_nil, List.append_nil]
  · -- the word's writes fit: fewer than 96 slots in use, at most 32 more
    have hlen := length_visitBits_le (indexToOffset i + live.heapBegin) (live.word i &&& ~~~(mark.word i))
    have hwrite := sweepBits_eq 32 (indexToOffset i + live.heapBegin) _ s hg (log2_toNat_lt _)
      (by
        rw [visitBits_eq 32 _ _ (Or.inr (log2_toNat_lt _)), List.length_map] at hlen
        unfold kBufferSize kWordSize kBitsPerWord
        omega)
    simp only [sweepWord, if_pos hg, hwrite, Option.bind_eq_bind, Option.bind_some]
    split
    · -- a flush hands on everything the buffer holds, at least 96 and at most 127 pointers
      rename_i hfull
      refine ⟨_, rfl, ⟨by simp [SweepBuffer.flush, kBufferSize, kWordSize, kBitsPerWord], fun batch hb => ?_⟩, ?_⟩
      · rcases List.mem_append.mp hb with hb | hb
        · exact hs.batches_ok batch hb
        · rw [List.mem_singleton] at hb
          subst hb
          simp only [List.length_append] at hfull ⊢
          unfold kBufferSize kWordSize kBitsPerWord at hfull ⊢
          exact ⟨List.ne_nil_of_length_pos (by simp only [List.length_append]; omega), by omega⟩
      · simp [SweepBuffer.flush]
    · rename_i hfull
      refine ⟨_, rfl, ⟨by simp only [List.length_append] at hfull ⊢; omega, hs.batches_ok⟩, ?_⟩
      simp

/-- The loop over words: each word's garbage in turn, whatever the flushes
    in between. -/
theorem foldlM_sweepWord (live mark : SpaceBitmap) :
    ∀ (is : List Nat) {s : SweepBuffer}, s.Room →
      ∃ s', is.foldlM (sweepWord live mark) s = some s' ∧ s'.Room ∧
        s'.batches.flatten ++ s'.buf = s.batches.flatten ++ s.buf ++ is.flatMap fun i =>
          visitBits 32 (indexToOffset i + live.heapBegin) (live.word i &&& ~~~(mark.word i))
  | [], s, hs => ⟨s, rfl, hs, by simp⟩
  | i :: is, s, hs => by
    obtain ⟨s₁, h₁, hs₁, hflat₁⟩ := sweepWord_spec live mark hs i
    obtain ⟨s', h', hs', hflat'⟩ := foldlM_sweepWord live mark is hs₁
    refine ⟨s', by rw [List.foldlM_cons, h₁, Option.bind_eq_bind, Option.bind_some, h'], hs', ?_⟩
    rw [hflat', hflat₁, List.flatMap_cons, List.append_assoc, List.append_assoc]

/-- The bits of a word of garbage: live and not marked. -/
theorem testBit_garbage (x y : UInt32) {j : Nat} (hj : j < 32) :
    (x &&& ~~~y).toNat.testBit j = (x.toNat.testBit j && !y.toNat.testBit j) := by
  rw [UInt32.toNat_and, Nat.testBit_and, testBit_not, decide_eq_true hj, Bool.true_and]

/-- The members of `garbage`, as bit indices. -/
theorem mem_garbage {live mark : SpaceBitmap} (hheap : live.heapBegin = mark.heapBegin)
    {first last a : Nat} :
    a ∈ garbage live mark first last ↔
      ∃ n, first ≤ n / 32 ∧ n / 32 ≤ last ∧
        (live.word (n / 32) &&& ~~~(mark.word (n / 32))).toNat.testBit (31 - n % 32) = true ∧
        a = live.heapBegin + n * kAlignment := by
  have htest : ∀ n, (live.test (live.heapBegin + n * kAlignment) &&
      !mark.test (live.heapBegin + n * kAlignment)) =
      (live.word (n / 32) &&& ~~~(mark.word (n / 32))).toNat.testBit (31 - n % 32) := by
    intro n
    rw [test_addr, hheap, test_addr, testBit_garbage _ _ (by omega)]
  rw [garbage, List.mem_filter, visitRange, List.mem_range']
  constructor
  · rintro ⟨⟨j, hj, rfl⟩, hbit⟩
    have haddr : indexToOffset first + live.heapBegin + kAlignment * j =
        live.heapBegin + (32 * first + j) * kAlignment := by
      simp only [indexToOffset, kAlignment, kBitsPerWord]
      ring
    rw [haddr, htest] at hbit
    simp only [indexToOffset, kAlignment, kBitsPerWord] at hj
    exact ⟨32 * first + j, by omega, by omega, hbit, haddr⟩
  · rintro ⟨n, hfirst, hlast, hbit, rfl⟩
    refine ⟨⟨n - 32 * first, ?_, ?_⟩, by rw [htest, hbit]⟩
    all_goals simp only [indexToOffset, kAlignment, kBitsPerWord]
    · omega
    · omega

/-- The garbage of a range of words, as the loop hands it on: word after
    word, each in address order. -/
theorem flatMap_sweep_eq_garbage {live mark : SpaceBitmap} (hheap : live.heapBegin = mark.heapBegin)
    (first last : Nat) (hle : first ≤ last) :
    ((List.range' first (last + 1 - first)).flatMap fun i =>
      visitBits 32 (indexToOffset i + live.heapBegin) (live.word i &&& ~~~(mark.word i))) =
      garbage live mark first last := by
  refine (flatMap_visitBits_pairwise _ _ _ _).eq_of_mem_iff
    ((List.pairwise_lt_range' kAlignment (by decide)).filter _) fun a => ?_
  rw [mem_flatMap_visitBits, mem_garbage hheap]
  constructor
  · rintro ⟨n, h1, h2, hbit, rfl⟩
    exact ⟨n, h1, by omega, hbit, rfl⟩
  · rintro ⟨n, h1, h2, hbit, rfl⟩
    exact ⟨n, h1, by omega, hbit, rfl⟩

/-- SweepWalk, for every pair of bitmaps over one heap and every range in
    it: every write stays inside pointer_buf, every batch is non-empty and
    at most `kBufferSize` pointers, and the batches together are the garbage
    of the words from the one holding `sweep_begin` to the one holding
    `sweep_end - 1`, in increasing address order, or nothing when the range
    is empty. -/
theorem sweepWalk_eq_garbage (live mark : SpaceBitmap) {sweep_begin sweep_end : Nat}
    (hheap : live.heapBegin = mark.heapBegin) (hsize : live.bitmap.length = mark.bitmap.length)
    (hbegin : live.heapBegin ≤ sweep_begin) (hle : sweep_begin ≤ sweep_end)
    (hend : sweep_end ≤ live.heapLimit) :
    ∃ batches, sweepWalk live mark sweep_begin sweep_end = some batches ∧
      (∀ batch ∈ batches, batch ≠ [] ∧ batch.length ≤ kBufferSize) ∧
      batches.flatten.Pairwise (· < ·) ∧
      batches.flatten = if sweep_begin < sweep_end then
        garbage live mark (offsetToIndex (sweep_begin - live.heapBegin))
          (offsetToIndex (sweep_end - live.heapBegin - 1)) else [] := by
  have hchecks : ¬ (live.heapBegin ≠ mark.heapBegin ∨ live.bitmap.length ≠ mark.bitmap.length ∨
      sweep_end < sweep_begin ∨ sweep_begin < live.heapBegin) := by omega
  by_cases hempty : sweep_end ≤ sweep_begin
  · refine ⟨[], by rw [sweepWalk, if_neg hchecks, if_pos hempty], by simp, by simp, ?_⟩
    rw [if_neg (by omega), List.flatten_nil]
  -- the words from the one of sweep_begin to the one of sweep_end - 1, all in the bitmap
  have hfirst : offsetToIndex (sweep_begin - live.heapBegin) ≤
      offsetToIndex (sweep_end - live.heapBegin - 1) := by
    unfold offsetToIndex
    exact Nat.div_le_div_right (Nat.div_le_div_right (by omega))
  have hlast : ¬ live.bitmap.length ≤ offsetToIndex (sweep_end - live.heapBegin - 1) := by
    unfold heapLimit indexToOffset at hend
    unfold offsetToIndex kAlignment kBitsPerWord at *
    omega
  obtain ⟨s, hs, hroom, hflat⟩ := foldlM_sweepWord live mark
    (List.range' (offsetToIndex (sweep_begin - live.heapBegin))
      (offsetToIndex (sweep_end - live.heapBegin - 1) + 1 -
        offsetToIndex (sweep_begin - live.heapBegin))) (s := ⟨[], []⟩) ⟨by decide, by simp⟩
  rw [flatMap_sweep_eq_garbage hheap _ _ hfirst] at hflat
  simp only [List.flatten_nil, List.nil_append] at hflat
  -- the last flush, when the buffer holds anything
  have hfinal : ∃ batches, (if s.buf.length > 0 then s.flush.batches else s.batches) = batches ∧
      (∀ batch ∈ batches, batch ≠ [] ∧ batch.length ≤ kBufferSize) ∧
      batches.flatten = s.batches.flatten ++ s.buf := by
    split
    · rename_i hpos
      refine ⟨_, rfl, fun batch hb => ?_, by simp [SweepBuffer.flush]⟩
      rcases List.mem_append.mp hb with hb | hb
      · exact hroom.batches_ok batch hb
      · rw [List.mem_singleton] at hb
        subst hb
        have := hroom.buf_lt
        unfold kBufferSize kWordSize kBitsPerWord at this ⊢
        exact ⟨List.ne_nil_of_length_pos hpos, by omega⟩
    · rename_i hzero
      refine ⟨_, rfl, hroom.batches_ok, ?_⟩
      rw [List.eq_nil_of_length_eq_zero (by omega : s.buf.length = 0), List.append_nil]
  obtain ⟨batches, hbatches, hok, hcat⟩ := hfinal
  refine ⟨batches, ?_, hok, ?_, ?_⟩
  · rw [sweepWalk, if_neg hchecks, if_neg hempty]
    simp only [if_neg hlast, hs, Option.bind_eq_bind, Option.bind_some, hbatches]
  · rw [hcat, hflat, garbage, visitRange]
    exact (List.pairwise_lt_range' kAlignment (by decide)).filter _
  · rw [hcat, hflat, if_pos (by omega)]

/-- Four words of a heap at 4096: the first three all live and unmarked, 96
    objects that bring the buffer to its flush; in the last, live objects at
    the first, second and last slots, the second marked. -/
def fourWordsLive : SpaceBitmap := ⟨4096, [0xFFFFFFFF, 0xFFFFFFFF, 0xFFFFFFFF, 0xC0000001]⟩

/-- The mark bitmap of the same heap: only the second object of the last
    word. -/
def fourWordsMarks : SpaceBitmap := ⟨4096, [0, 0, 0, 0x40000000]⟩

set_option maxRecDepth 4000 in
theorem sweepWalk_eq_garbage_fourWords :
    (sweepWalk fourWordsLive fourWordsMarks 4096 5120).map (·.map List.length) = some [96, 2] ∧
      fourWordsLive.heapBegin = fourWordsMarks.heapBegin ∧
      fourWordsLive.bitmap.length = fourWordsMarks.bitmap.length ∧
      fourWordsLive.heapBegin ≤ 4096 ∧ 4096 ≤ 5120 ∧ 5120 ≤ fourWordsLive.heapLimit ∧
      ∃ batches, sweepWalk fourWordsLive fourWordsMarks 4096 5120 = some batches ∧
        (∀ batch ∈ batches, batch ≠ [] ∧ batch.length ≤ kBufferSize) ∧
        batches.flatten.Pairwise (· < ·) ∧
        batches.flatten = if 4096 < 5120 then
          garbage fourWordsLive fourWordsMarks (offsetToIndex (4096 - fourWordsLive.heapBegin))
            (offsetToIndex (5120 - fourWordsLive.heapBegin - 1)) else [] :=
  ⟨rfl, rfl, rfl, by decide, by decide, by decide,
    sweepWalk_eq_garbage fourWordsLive fourWordsMarks rfl rfl (by decide) (by decide) (by decide)⟩

/-- A heap at 4096 whose one live object is the first. -/
def oneLiveObject : SpaceBitmap := ⟨4096, [0x80000000]⟩

/-- A mark bitmap of the same heap with nothing marked. -/
def noMarks : SpaceBitmap := ⟨4096, [0]⟩

/-- An empty range inside the first word: the words from the one holding
    `sweep_begin` to the one holding `sweep_end - 1` are the first word, whose
    garbage is the object at 4096, but SweepWalk returns before its loop and
    hands on nothing. -/
theorem sweepWalk_skips_empty_range :
    oneLiveObject.heapBegin ≤ 4104 ∧ 4104 ≤ oneLiveObject.heapLimit ∧
      sweepWalk oneLiveObject noMarks 4104 4104 = some [] ∧
      garbage oneLiveObject noMarks (offsetToIndex (4104 - oneLiveObject.heapBegin))
        (offsetToIndex (4104 - oneLiveObject.heapBegin - 1)) = [4096] := by
  decide

end SpaceBitmap

end Gc

end ArtRuntime
