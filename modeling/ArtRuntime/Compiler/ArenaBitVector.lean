import ArtRuntime.Core.PackedBits
import ArtRuntime.Core.BitScan
import ArtRuntime.Core.Word
import Mathlib.Data.Nat.Bitwise
import ArtRuntime.Compiler.VmapTable

/-!
# The Quick Compiler's Arena Bit Vector

An `ArenaBitVector` keeps a set of bit numbers (live registers, blocks in a
dominance frontier) in an array of 32-bit words from the arena, bit `i` as
bit `i % 32` of word `i / 32`. `SetBit` past the end grows an expandable
vector to the words of `num + 1` bits; the set operations work word by word;
`NumSetBits` adds the words' population counts; `SetInitialBits` fills the
first words and a partial last one. Its `Iterator` keeps one bit index and
hands out the set bits one `Next` at a time: it shifts the current word
right by the index's low five bits, and when nothing is left there it rounds
the index down and skips whole zero words, then adds `CTZ + 1`.

The model keeps the source's unsigned 32-bit arithmetic. The vector stands
for the finite set `denote` of its set bits (`PackedBits`), and each
operation is a set operation on it (`denote_apply`); the queries read that
set back (`isBitSet_iff`, `numSetBits_toInt`, `equal_iff`). `Next` is
specified, one call at a time, by the least set bit at or above the index
(`next_cases`), and a run of calls by the sorted members
(`results_eq`).

The iterator hands out positions as an `int`: a vector grown past bit
`2 ^ 31` hands out the negative number `bit_index_ - 1` becomes
(`iterator_returns_negative_position`). Below that size, and so for every
run whose bit numbers stay below `2 ^ 31 - 32`, the vector is the set its
operations build (`arenaBitVector_set_semantics`).

## Main definitions

* `ArenaBitVector`: Whether a vector may grow, and its words.
* `ArenaBitVector.setBit`, `clearBit`, `clearAllBits`, `setInitialBits`,
  `copy`, `intersect`, `union`: The operations.
* `ArenaBitVector.isBitSet`, `numSetBits`, `equal`: The queries.
* `Iterator`, `Iterator.nextWord`, `Iterator.next`: The iterator and its
  `Next`, with the word search cut out as `nextWord`.
* `ArenaBitVector.denote`, `Op.applySet`: The set a vector stands for, and
  what each operation does to it.

## Theorems

* `bit_setBit`, `bit_clearBit`, `bit_clearAllBits`, `bit_setInitialBits`,
  `bit_copy`, `bit_intersect`, `bit_union`: Each operation, bit by bit.
* `isBitSet_iff`, `numSetBits_toInt`, `equal_iff`: The queries read the set.
* `Op.denote_apply`, `denote_runOps`: A run of operations builds the set its
  set operations build, and keeps the storage below `2 ^ 26` words.
* `Iterator.next_cases`: One `Next` returns the least set bit at or above the
  index, or `-1` at the end.
* `Iterator.results_eq`, `Iterator.results_new`: A run of `Next` returns the
  members at or above the index in increasing order, then `-1` for ever.
* `arenaBitVector_set_semantics`: The set semantics of every run with bit
  numbers below `2 ^ 31 - 32`.
* `iterator_returns_negative_position`: A vector grown to bit `2 ^ 31`
  hands that bit out as `-2 ^ 31`.
-/

namespace ArtRuntime

namespace Compiler

open PackedBits

/-- `check_masks`: the mask of each bit of a word. -/
def check_masks : List UInt32 :=
  [0x00000001, 0x00000002, 0x00000004, 0x00000008, 0x00000010,
   0x00000020, 0x00000040, 0x00000080, 0x00000100, 0x00000200,
   0x00000400, 0x00000800, 0x00001000, 0x00002000, 0x00004000,
   0x00008000, 0x00010000, 0x00020000, 0x00040000, 0x00080000,
   0x00100000, 0x00200000, 0x00400000, 0x00800000, 0x01000000,
   0x02000000, 0x04000000, 0x08000000, 0x10000000, 0x20000000,
   0x40000000, 0x80000000]

/-- An `ArenaBitVector`: whether it may grow, and its words, of which
    `storage_size_` is the number. -/
structure ArenaBitVector where
  expandable : Bool
  storage : List UInt32
  deriving DecidableEq, Repr

namespace ArenaBitVector

/-- The constructor: `(start_bits + 31) >> 5` words from the arena, which
    hands out zeroed memory. -/
def new (start_bits : UInt32) (expandable : Bool) : ArenaBitVector :=
  ⟨expandable, List.replicate ((start_bits + 31) >>> 5).toNat 0⟩

/-- `IsBitSet`. Its `DCHECK` asks for a bit number within the vector; past
    the storage the code reads beyond it, and the model reads `0`, which
    nothing proved here relies on. -/
def isBitSet (v : ArenaBitVector) (num : UInt32) : Bool :=
  let val := v.storage.getD (num >>> 5).toNat 0 &&& check_masks.getD (num &&& 0x1f).toNat 0
  val != 0

/-- `ClearAllBits`. -/
def clearAllBits (v : ArenaBitVector) : ArenaBitVector :=
  { v with storage := List.replicate v.storage.length 0 }

/-- `SetBit`: a bit past the end first grows the storage to the words of
    `num + 1` bits, the old words copied and the new ones zeroed. -/
def setBit (v : ArenaBitVector) (num : UInt32) : ArenaBitVector :=
  let v :=
    if num.toNat ≥ v.storage.length * 4 * 8 then
      -- round up to word boundaries for `num + 1` bits
      let new_size := ((num + 1 + 31) >>> 5).toNat
      { v with storage := v.storage ++ List.replicate (new_size - v.storage.length) 0 }
    else v
  { v with storage := v.storage.modify (num >>> 5).toNat (· ||| check_masks.getD (num &&& 0x1f).toNat 0) }

/-- `ClearBit`. -/
def clearBit (v : ArenaBitVector) (num : UInt32) : ArenaBitVector :=
  { v with storage :=
      v.storage.modify (num >>> 5).toNat (· &&& ~~~check_masks.getD (num &&& 0x1f).toNat 0) }

/-- `Copy`: `storage_size_` words of `src`. -/
def copy (v src : ArenaBitVector) : ArenaBitVector :=
  { v with storage := v.storage.mapIdx fun idx _ => src.storage.getD idx 0 }

/-- `Intersect`. -/
def intersect (v src : ArenaBitVector) : ArenaBitVector :=
  { v with storage := v.storage.mapIdx fun idx w => w &&& src.storage.getD idx 0 }

/-- `Union`. -/
def union (v src : ArenaBitVector) : ArenaBitVector :=
  { v with storage := v.storage.mapIdx fun idx w => w ||| src.storage.getD idx 0 }

/-- `NumSetBits`: the words' counts added in an unsigned counter, returned
    as an `int`. -/
def numSetBits (v : ArenaBitVector) : Int32 :=
  (v.storage.foldl (fun count w => count + (VmapTable.popcount w.toNat).toUInt32) 0).toInt32

/-- `SetInitialBits`: every word below `num_bits >> 5` all ones, and the next
    word the low `num_bits & 0x1f` bits when there are any; `(1 << 31) - 1`
    is taken as it wraps, `0x7fffffff`. -/
def setInitialBits (v : ArenaBitVector) (num_bits : UInt32) : ArenaBitVector :=
  let idx := (num_bits >>> 5).toNat
  let storage := (List.range idx).foldl (fun s idx => s.set idx 0xFFFFFFFF) v.storage
  let rem_num_bits := num_bits &&& 0x1f
  { v with storage :=
      if rem_num_bits ≠ 0 then storage.set idx ((1 <<< rem_num_bits) - 1) else storage }

/-- `Equal`: the sizes, the expandability and then the words (`memcmp`). -/
def equal (v src : ArenaBitVector) : Bool :=
  v.storage.length == src.storage.length && v.expandable == src.expandable &&
    v.storage == src.storage

end ArenaBitVector

/-- `CTZ` (`__builtin_ctz`): the position of the lowest set bit of a nonzero
    word. -/
def ctz (x : UInt32) : UInt32 := ((wordBits x).headD 32).toUInt32

/-- `ArenaBitVector::Iterator`: the words it walks, the index of the next bit
    to look at, and the size in bits taken when it was made. -/
structure Iterator where
  bit_storage : List UInt32
  bit_index : UInt32
  bit_size : UInt32
  deriving DecidableEq, Repr

namespace Iterator

/-- The iterator's constructor; the size in bits is computed in `size_t`
    and kept in a `uint32_t`. -/
def new (bit_vector : ArenaBitVector) : Iterator :=
  ⟨bit_vector.storage, 0, (bit_vector.storage.length * 4 * 8).toUInt32⟩

/-- The `do ... while (word == 0)` loop of `Next`, from the word at
    `word_index` whose first bit is `bit_index`: the next nonzero word and
    the index of its first bit, or `none` once the words reach `bit_size_`.
    `fuel` bounds the words the loop may look at. -/
def skipZeroWords (bit_storage : List UInt32) (bit_size : UInt32) :
    Nat → UInt32 → UInt32 → Option (UInt32 × UInt32)
  | 0, _, _ => none
  | fuel + 1, word_index, bit_index =>
    let word_index := word_index + 1
    if word_index * 32 ≥ bit_size then none
    else
      let word := bit_storage.getD word_index.toNat 0
      let bit_index := bit_index + 32
      if word = 0 then skipZeroWords bit_storage bit_size fuel word_index bit_index
      else some (word, bit_index)

/-- The search of `Next`, up to the `CTZ`: the first word with a set bit at or
    above the index, shifted so that its bit `0` is the bit at the returned
    index, or `none` at the end. -/
def nextWord (it : Iterator) : Option (UInt32 × UInt32) :=
  let word_index := it.bit_index / 32
  -- mask out the bits of the first word already considered
  let word := it.bit_storage.getD word_index.toNat 0 >>> (it.bit_index &&& 0x1f)
  if word = 0 then
    skipZeroWords it.bit_storage it.bit_size it.bit_storage.length word_index
      (it.bit_index &&& ~~~0x1f)
  else some (word, it.bit_index)

/-- `Next`: the position of the next set bit, or `-1` at the end. -/
def next (it : Iterator) : Int32 × Iterator :=
  if it.bit_index ≥ it.bit_size then (-1, it)
  else
    match it.nextWord with
    | none => (-1, { it with bit_index := it.bit_size })
    | some (word, bit_index) =>
      let bit_index := bit_index + (ctz word + 1)
      ((bit_index - 1).toInt32, { it with bit_index := bit_index })

/-- The results of `k` calls of `Next`. -/
def results : Nat → Iterator → List Int32
  | 0, _ => []
  | k + 1, it => it.next.1 :: results k it.next.2

end Iterator

/-! ### Word arithmetic -/

theorem toNat_shiftRight_five (x : UInt32) : (x >>> 5).toNat = x.toNat / 32 := by
  rw [UInt32.toNat_shiftRight, Nat.shiftRight_eq_div_pow]
  rfl

theorem toNat_and_0x1f (x : UInt32) : (x &&& 0x1f).toNat = x.toNat % 32 :=
  MachineWord.toNat_and_mask x 0x1f (k := 5) rfl

/-- `check_masks[k]` is bit `k`. -/
theorem toNat_check_masks {k : Nat} (hk : k < 32) : (check_masks.getD k 0).toNat = 2 ^ k := by
  have hall : ∀ j : Fin 32, (check_masks.getD j 0).toNat = 2 ^ (j : Nat) := by decide
  exact hall ⟨k, hk⟩

/-- The mask of bit `num`. -/
theorem toNat_mask (num : UInt32) :
    (check_masks.getD (num &&& 0x1f).toNat 0).toNat = 2 ^ (num.toNat % 32) := by
  rw [toNat_and_0x1f]
  exact toNat_check_masks (Nat.mod_lt _ (by decide))

/-- No bit of a word stands at 32 or above. -/
theorem testBit_toNat_of_le (w : UInt32) {j : Nat} (hj : 32 ≤ j) : w.toNat.testBit j = false :=
  Nat.testBit_lt_two_pow (lt_of_lt_of_le w.toNat_lt (Nat.pow_le_pow_right (by decide) hj))

/-- `(num + 1 + 31) >> 5`, the words of `num + 1` bits, when the sum does not
    wrap. -/
theorem toNat_new_size (num : UInt32) (h : num.toNat + 32 < 2 ^ 32) :
    ((num + 1 + 31) >>> 5).toNat = (num.toNat + 32) / 32 := by
  rw [toNat_shiftRight_five, UInt32.toNat_add, UInt32.toNat_add]
  simp only [UInt32.reduceToNat]
  omega

/-- Changing the word of bit `num` by a function that sets bit `num % 32` of
    a word to `b` and keeps its other bits: bit `num` becomes `b`, when its
    word is there. -/
theorem bit_modify_word {ws : List UInt32} {num : Nat} {f : UInt32 → UInt32} {b : Bool}
    (hf : ∀ w j, (f w).toNat.testBit j = if j = num % 32 then b else w.toNat.testBit j) (i : Nat) :
    bit (ws.modify (num / 32) f) i = if i = num ∧ num / 32 < ws.length then b else bit ws i := by
  rw [bit_modify]
  by_cases hword : i / 32 = num / 32 ∧ num / 32 < ws.length
  · -- in the word of `num`, bit `i` is bit `num` exactly when it has its place
    have hiff : i % 32 = num % 32 ↔ i = num := by omega
    rw [if_pos hword, hf]
    by_cases hi : i = num
    · simp [hi, hword.2]
    · have hmod : ¬ i % 32 = num % 32 := fun h => hi (hiff.1 h)
      rw [if_neg hmod, if_neg (fun h => hi h.1), bit, hword.1]
  · rw [if_neg hword]
    by_cases hi : i = num
    · subst hi
      have hout : ¬ i / 32 < ws.length := fun h => hword ⟨rfl, h⟩
      rw [if_neg (fun h => hout h.2)]
    · rw [if_neg (fun h => hi h.1)]

namespace ArenaBitVector

/-! ### The operations, bit by bit -/

theorem isBitSet_eq_bit (v : ArenaBitVector) (num : UInt32) :
    v.isBitSet num = bit v.storage num.toNat := by
  -- the masked word is the bit times its weight
  have hval : (v.storage.getD (num >>> 5).toNat 0 &&& check_masks.getD (num &&& 0x1f).toNat 0).toNat =
      (bit v.storage num.toNat).toNat * 2 ^ (num.toNat % 32) := by
    rw [UInt32.toNat_and, toNat_mask, Nat.and_two_pow, toNat_shiftRight_five]
    rfl
  unfold isBitSet
  rw [Bool.eq_iff_iff, bne_iff_ne, ne_eq, ← UInt32.toNat_inj, hval]
  cases bit v.storage num.toNat <;> simp

/-- `SetBit` with the growth pulled out: the word of `num` is or-ed with its
    mask in the storage as grown. -/
theorem setBit_storage (v : ArenaBitVector) (num : UInt32) :
    (v.setBit num).storage =
      (if num.toNat ≥ v.storage.length * 4 * 8 then
        v.storage ++ List.replicate (((num + 1 + 31) >>> 5).toNat - v.storage.length) 0
      else v.storage).modify (num >>> 5).toNat (· ||| check_masks.getD (num &&& 0x1f).toNat 0) := by
  unfold setBit
  split <;> rfl

theorem length_setBit (v : ArenaBitVector) (num : UInt32) :
    (v.setBit num).storage.length =
      if num.toNat ≥ v.storage.length * 4 * 8 then
        v.storage.length + (((num + 1 + 31) >>> 5).toNat - v.storage.length)
      else v.storage.length := by
  rw [setBit_storage, List.length_modify]
  split <;> simp

/-- `SetBit` adds `num`, when `num` fits or the growth's size does not wrap. -/
theorem bit_setBit (v : ArenaBitVector) {num : UInt32}
    (hnum : num.toNat < 32 * v.storage.length ∨ num.toNat + 32 < 2 ^ 32) (i : Nat) :
    bit (v.setBit num).storage i = (bit v.storage i || decide (i = num.toNat)) := by
  -- the storage as grown has the old bits and a word for `num`
  obtain ⟨g, hg, hbits, hlen⟩ : ∃ g : List UInt32,
      (v.setBit num).storage = g.modify (num.toNat / 32) (· ||| check_masks.getD (num &&& 0x1f).toNat 0) ∧
      (∀ i, bit g i = bit v.storage i) ∧ num.toNat / 32 < g.length := by
    rw [setBit_storage, toNat_shiftRight_five num]
    split
    · refine ⟨_, rfl, fun i => bit_append_replicate_zero _ _ i, ?_⟩
      have hsize := toNat_new_size num (by omega)
      rw [List.length_append, List.length_replicate, hsize]
      omega
    · exact ⟨_, rfl, fun _ => rfl, by omega⟩
  have hor : ∀ (w : UInt32) j, (w ||| check_masks.getD (num &&& 0x1f).toNat 0).toNat.testBit j =
      if j = num.toNat % 32 then true else w.toNat.testBit j := by
    intro w j
    rw [UInt32.toNat_or, Nat.testBit_or, toNat_mask, Nat.testBit_two_pow]
    by_cases hj : j = num.toNat % 32 <;> simp [hj, Ne.symm]
  rw [hg, bit_modify_word hor, hbits]
  by_cases hi : i = num.toNat <;> simp [hi, hlen]

/-- `ClearBit` removes `num`; a bit past the end is not there to remove. -/
theorem bit_clearBit (v : ArenaBitVector) (num : UInt32) (i : Nat) :
    bit (v.clearBit num).storage i = (bit v.storage i && decide (i ≠ num.toNat)) := by
  have hand : ∀ (w : UInt32) j, (w &&& ~~~check_masks.getD (num &&& 0x1f).toNat 0).toNat.testBit j =
      if j = num.toNat % 32 then false else w.toNat.testBit j := by
    intro w j
    rw [UInt32.toNat_and, Nat.testBit_and, WordBits.testBit_not, toNat_mask, Nat.testBit_two_pow]
    by_cases hj : j = num.toNat % 32
    · simp [hj]
    · by_cases hj32 : j < 32
      · simp [hj, hj32, Ne.symm hj]
      · simp [hj32, testBit_toNat_of_le w (Nat.le_of_not_lt hj32)]
  rw [clearBit, toNat_shiftRight_five, bit_modify_word hand]
  by_cases hi : i = num.toNat
  · -- past the end the bit was clear already
    rw [hi]
    by_cases hlen : num.toNat / 32 < v.storage.length
    · simp [hlen]
    · have hclear : bit v.storage num.toNat = false := bit_eq_false_of_le (by omega)
      simp [hlen, hclear]
  · simp [hi]

theorem bit_clearAllBits (v : ArenaBitVector) (i : Nat) : bit v.clearAllBits.storage i = false :=
  bit_replicate_zero _ i

theorem bit_copy (v src : ArenaBitVector) (hlen : src.storage.length = v.storage.length) (i : Nat) :
    bit (v.copy src).storage i = bit src.storage i := by
  dsimp only [copy]
  rw [bit_mapIdx v.storage src.storage (fun _ u => u) i]
  by_cases hi : i / 32 < v.storage.length
  · simp [hi, bit]
  · have hclear : bit src.storage i = false := bit_eq_false_of_le (by omega)
    simp [hi, hclear]

theorem bit_intersect (v src : ArenaBitVector) (i : Nat) :
    bit (v.intersect src).storage i = (bit v.storage i && bit src.storage i) := by
  dsimp only [intersect]
  rw [bit_mapIdx v.storage src.storage (· &&& ·) i, UInt32.toNat_and, Nat.testBit_and]
  by_cases hi : i / 32 < v.storage.length
  · simp [hi, bit]
  · have hclear : bit v.storage i = false := bit_eq_false_of_le (by omega)
    simp [hi, hclear]

theorem bit_union (v src : ArenaBitVector) (hlen : src.storage.length = v.storage.length) (i : Nat) :
    bit (v.union src).storage i = (bit v.storage i || bit src.storage i) := by
  dsimp only [union]
  rw [bit_mapIdx v.storage src.storage (· ||| ·) i, UInt32.toNat_or, Nat.testBit_or]
  by_cases hi : i / 32 < v.storage.length
  · simp [hi, bit]
  · have hclear : bit v.storage i = false := bit_eq_false_of_le (by omega)
    have hclear' : bit src.storage i = false := bit_eq_false_of_le (by omega)
    simp [hi, hclear, hclear']

/-- `SetInitialBits(n)` sets the bits below `n`, clears the rest of the word
    of bit `n` when part of that word is below `n`, and keeps the words
    past it. -/
theorem bit_setInitialBits (v : ArenaBitVector) {num_bits : UInt32}
    (hn : num_bits.toNat ≤ 32 * v.storage.length) (i : Nat) :
    bit (v.setInitialBits num_bits).storage i =
      (decide (i < num_bits.toNat) ||
        (decide (32 * ((num_bits.toNat + 31) / 32) ≤ i) && bit v.storage i)) := by
  have hones : (0xFFFFFFFF : UInt32).toNat = 2 ^ 32 - 1 := rfl
  -- the loop fills the words below `n / 32`
  have hfill : ∀ i, bit ((List.range (num_bits >>> 5).toNat).foldl
      (fun s idx => s.set idx 0xFFFFFFFF) v.storage) i =
      (decide (i / 32 < num_bits.toNat / 32) || bit v.storage i) := by
    intro i
    rw [bit_foldl_set_range, toNat_shiftRight_five, hones, Nat.testBit_two_pow_sub_one]
    by_cases hi : i / 32 < num_bits.toNat / 32
    · have hlen : i / 32 < v.storage.length := by omega
      simp [hi, hlen, Nat.mod_lt i (show 32 > 0 by decide)]
    · simp [hi]
  have hrem : (num_bits &&& 0x1f).toNat = num_bits.toNat % 32 := toNat_and_0x1f num_bits
  unfold setInitialBits
  dsimp only
  split
  · -- a partial last word: its low `n % 32` bits
    rename_i hne
    have hne' : num_bits.toNat % 32 ≠ 0 := fun h => hne (UInt32.toNat_inj.1 (by rw [hrem, h]; rfl))
    have hpow : 2 ^ (num_bits.toNat % 32) < 2 ^ 32 :=
      Nat.pow_lt_pow_right (by decide) (Nat.mod_lt _ (by decide))
    have hshift : ((1 : UInt32) <<< (num_bits &&& 0x1f)).toNat = 2 ^ (num_bits.toNat % 32) := by
      rw [UInt32.toNat_shiftLeft, hrem, Nat.mod_mod, UInt32.toNat_one, Nat.one_shiftLeft,
        Nat.mod_eq_of_lt hpow]
    have hlow : ((1 : UInt32) <<< (num_bits &&& 0x1f) - 1).toNat = 2 ^ (num_bits.toNat % 32) - 1 := by
      have hle : (1 : UInt32) ≤ (1 : UInt32) <<< (num_bits &&& 0x1f) :=
        UInt32.le_iff_toNat_le.2 (by rw [hshift, UInt32.toNat_one]; exact Nat.one_le_two_pow)
      rw [UInt32.toNat_sub_of_le _ _ hle, hshift, UInt32.toNat_one]
    rw [bit_set, length_foldl_set_range, hlow, Nat.testBit_two_pow_sub_one, hfill,
      toNat_shiftRight_five]
    rcases Nat.lt_trichotomy (i / 32) (num_bits.toNat / 32) with hlt | heq | hgt
    · have hi : i < num_bits.toNat := by omega
      simp [hlt, hi, Nat.ne_of_lt hlt]
    · -- the word of bit `n`: set below `n`, clear above
      have hlen : num_bits.toNat / 32 < v.storage.length := by omega
      have hiff : i % 32 < num_bits.toNat % 32 ↔ i < num_bits.toNat := by omega
      have habove : ¬ 32 * ((num_bits.toNat + 31) / 32) ≤ i := by omega
      simp [heq, hlen, hiff, habove]
    · have hi : ¬ i < num_bits.toNat := by omega
      have habove : 32 * ((num_bits.toNat + 31) / 32) ≤ i := by omega
      simp [Nat.ne_of_gt hgt, hi, habove, Nat.not_lt_of_gt hgt]
  · -- no partial word: the bits from `n` on are kept
    rename_i hzero
    have hzero' : num_bits.toNat % 32 = 0 := by
      rw [← hrem, UInt32.toNat_inj.2 (of_not_not hzero)]
      rfl
    rw [hfill]
    have hiff : i / 32 < num_bits.toNat / 32 ↔ i < num_bits.toNat := by omega
    have hround : 32 * ((num_bits.toNat + 31) / 32) = num_bits.toNat := by omega
    by_cases hi : i < num_bits.toNat
    · simp [hiff, hi]
    · simp [hiff, hi, hround, Nat.le_of_not_lt hi]

/-! ### The set a vector stands for -/

/-- The set of bit numbers a vector stands for. -/
def denote (v : ArenaBitVector) : Finset Nat := toFinset v.storage

theorem mem_denote {v : ArenaBitVector} {i : Nat} : i ∈ v.denote ↔ bit v.storage i = true :=
  mem_toFinset

theorem denote_new (start_bits : UInt32) (expandable : Bool) : (new start_bits expandable).denote = ∅ := by
  ext i
  rw [mem_denote, new, bit_replicate_zero]
  simp

theorem length_new_lt {start_bits : UInt32} (expandable : Bool) (h : start_bits.toNat + 32 < 2 ^ 31) :
    (new start_bits expandable).storage.length < 2 ^ 26 := by
  have hwords : ((start_bits + 31) >>> 5).toNat = (start_bits.toNat + 31) / 32 := by
    rw [toNat_shiftRight_five, UInt32.toNat_add]
    simp only [UInt32.reduceToNat]
    omega
  rw [new, List.length_replicate, hwords]
  omega

/-! ### The queries -/

theorem isBitSet_iff (v : ArenaBitVector) (num : UInt32) : v.isBitSet num = true ↔ num.toNat ∈ v.denote := by
  rw [isBitSet_eq_bit, mem_denote]

/-- The unsigned counter of `NumSetBits` after some words: the count so far
    and their set bits, modulo `2 ^ 32`. -/
theorem toNat_foldl_popcount (ws : List UInt32) (count : UInt32) :
    (ws.foldl (fun count w => count + (VmapTable.popcount w.toNat).toUInt32) count).toNat =
      (count.toNat + (ws.map fun w => (wordBits w).length).sum) % 2 ^ 32 := by
  induction ws generalizing count with
  | nil => simp [Nat.mod_eq_of_lt count.toNat_lt]
  | cons w ws ih =>
    -- `__builtin_popcount` counts the word's bits
    have hpop : VmapTable.popcount w.toNat = (wordBits w).length := rfl
    rw [List.foldl_cons, ih, UInt32.toNat_add, hpop, UInt32.toNat_ofNat', List.map_cons, List.sum_cons]
    omega

/-- `NumSetBits` counts the set, while the count fits an `int`. -/
theorem numSetBits_toInt (v : ArenaBitVector) (hlen : v.storage.length < 2 ^ 26) :
    v.numSetBits.toInt = v.denote.card := by
  have hcount : (members v.storage).length ≤ 32 * v.storage.length :=
    (List.length_filter_le _ _).trans (List.length_range).le
  have htoNat : (v.storage.foldl (fun count w => count + (VmapTable.popcount w.toNat).toUInt32) 0).toNat =
      (members v.storage).length := by
    rw [toNat_foldl_popcount, length_members, UInt32.toNat_zero, Nat.zero_add]
    rw [← length_members]
    omega
  rw [numSetBits, MachineWord.toInt_toInt32_of_lt _ (by omega), htoNat, denote, card_toFinset]

/-- `Equal` compares the sets of vectors of one size and expandability. -/
theorem equal_iff (v src : ArenaBitVector) (hlen : src.storage.length = v.storage.length)
    (hexp : src.expandable = v.expandable) : v.equal src = true ↔ v.denote = src.denote := by
  rw [equal, hlen, hexp, denote, denote, toFinset_inj hlen.symm]
  simp

end ArenaBitVector

/-! ### Runs of operations -/

/-- An operation on a vector; `Copy`, `Intersect` and `Union` name the vector
    they read. -/
inductive Op where
  | setBit (num : UInt32)
  | clearBit (num : UInt32)
  | clearAllBits
  | setInitialBits (num_bits : UInt32)
  | copy (src : ArenaBitVector)
  | intersect (src : ArenaBitVector)
  | union (src : ArenaBitVector)
  deriving DecidableEq, Repr

namespace Op

/-- The operation on the vector. -/
def apply : Op → ArenaBitVector → ArenaBitVector
  | .setBit num, v => v.setBit num
  | .clearBit num, v => v.clearBit num
  | .clearAllBits, v => v.clearAllBits
  | .setInitialBits num_bits, v => v.setInitialBits num_bits
  | .copy src, v => v.copy src
  | .intersect src, v => v.intersect src
  | .union src, v => v.union src

/-- What the operation does to the set: `SetInitialBits(n)` sets the bits
    below `n` and keeps those past the word of bit `n`. -/
def applySet : Op → Finset Nat → Finset Nat
  | .setBit num, S => insert num.toNat S
  | .clearBit num, S => S.erase num.toNat
  | .clearAllBits, _ => ∅
  | .setInitialBits num_bits, S =>
    Finset.range num_bits.toNat ∪ S.filter (32 * ((num_bits.toNat + 31) / 32) ≤ ·)
  | .copy src, _ => src.denote
  | .intersect src, S => S ∩ src.denote
  | .union src, S => S ∪ src.denote

/-- The arguments an operation may be given: a source of the vector's size,
    `SetInitialBits` and `ClearBit` within the vector, as their `DCHECK`s
    require, and bit numbers of `SetBit` below `2 ^ 31 - 32`, so that every
    bit number and every count fits an `int`. -/
def Valid (v : ArenaBitVector) : Op → Prop
  | .setBit num => num.toNat + 32 < 2 ^ 31
  | .clearBit num => num.toNat < 32 * v.storage.length
  | .clearAllBits => True
  | .setInitialBits num_bits => num_bits.toNat ≤ 32 * v.storage.length
  | .copy src | .intersect src | .union src => src.storage.length = v.storage.length

instance (v : ArenaBitVector) : (op : Op) → Decidable (op.Valid v)
  | .setBit num => inferInstanceAs (Decidable (num.toNat + 32 < 2 ^ 31))
  | .clearBit num => inferInstanceAs (Decidable (num.toNat < 32 * v.storage.length))
  | .clearAllBits => inferInstanceAs (Decidable True)
  | .setInitialBits num_bits => inferInstanceAs (Decidable (num_bits.toNat ≤ 32 * v.storage.length))
  | .copy src | .intersect src | .union src =>
    inferInstanceAs (Decidable (src.storage.length = v.storage.length))

/-- Each operation is its set operation on the set the vector stands for. -/
theorem denote_apply {v : ArenaBitVector} {op : Op} (hv : op.Valid v) :
    (op.apply v).denote = op.applySet v.denote := by
  ext i
  cases op with
  | setBit num =>
    have hnum : num.toNat < 32 * v.storage.length ∨ num.toNat + 32 < 2 ^ 32 :=
      Or.inr (lt_trans hv (by decide))
    simp [apply, applySet, ArenaBitVector.mem_denote, ArenaBitVector.bit_setBit v hnum, or_comm]
  | clearBit num =>
    simp [apply, applySet, ArenaBitVector.mem_denote, ArenaBitVector.bit_clearBit, and_comm]
  | clearAllBits =>
    simp [apply, applySet, ArenaBitVector.mem_denote, ArenaBitVector.bit_clearAllBits]
  | setInitialBits num_bits =>
    simp [apply, applySet, ArenaBitVector.mem_denote, ArenaBitVector.bit_setInitialBits v hv, and_comm]
  | copy src =>
    simp [apply, applySet, ArenaBitVector.mem_denote, ArenaBitVector.bit_copy v src hv]
  | intersect src =>
    simp [apply, applySet, ArenaBitVector.mem_denote, ArenaBitVector.bit_intersect]
  | union src =>
    simp [apply, applySet, ArenaBitVector.mem_denote, ArenaBitVector.bit_union v src hv]

/-- The operations keep the storage below `2 ^ 26` words: only `SetBit`
    grows it, to the words of a bit number below `2 ^ 31 - 32`. -/
theorem length_apply_lt {v : ArenaBitVector} {op : Op} (hv : op.Valid v)
    (hlen : v.storage.length < 2 ^ 26) : (op.apply v).storage.length < 2 ^ 26 := by
  cases op with
  | setBit num =>
    have hsize := toNat_new_size num (by simp only [Valid] at hv; omega)
    simp only [Valid] at hv
    rw [apply, ArenaBitVector.length_setBit, hsize]
    split <;> omega
  | clearBit num => simpa [apply, ArenaBitVector.clearBit] using hlen
  | clearAllBits => simpa [apply, ArenaBitVector.clearAllBits] using hlen
  | setInitialBits num_bits =>
    simp only [apply, ArenaBitVector.setInitialBits]
    split <;> simpa [length_foldl_set_range] using hlen
  | copy src => simpa [apply, ArenaBitVector.copy] using hlen
  | intersect src => simpa [apply, ArenaBitVector.intersect] using hlen
  | union src => simpa [apply, ArenaBitVector.union] using hlen

end Op

/-- The vector after a run of operations. -/
def runOps (v : ArenaBitVector) (ops : List Op) : ArenaBitVector := ops.foldl (fun v op => op.apply v) v

/-- The set after a run of set operations. -/
def runSet (S : Finset Nat) (ops : List Op) : Finset Nat := ops.foldl (fun S op => op.applySet S) S

/-- Every operation of a run is given arguments it may be given. -/
def ValidRun : ArenaBitVector → List Op → Prop
  | _, [] => True
  | v, op :: ops => op.Valid v ∧ ValidRun (op.apply v) ops

instance decValidRun : (v : ArenaBitVector) → (ops : List Op) → Decidable (ValidRun v ops)
  | _, [] => inferInstanceAs (Decidable True)
  | v, op :: ops =>
    haveI := decValidRun (op.apply v) ops
    inferInstanceAs (Decidable (op.Valid v ∧ ValidRun (op.apply v) ops))

/-- A run of operations builds the set its set operations build, and keeps
    the storage below `2 ^ 26` words. -/
theorem denote_runOps {v : ArenaBitVector} {ops : List Op} (hops : ValidRun v ops)
    (hlen : v.storage.length < 2 ^ 26) :
    (runOps v ops).denote = runSet v.denote ops ∧ (runOps v ops).storage.length < 2 ^ 26 := by
  induction ops generalizing v with
  | nil => exact ⟨rfl, hlen⟩
  | cons op ops ih =>
    obtain ⟨hop, hrest⟩ := hops
    have hstep := ih hrest (Op.length_apply_lt hop hlen)
    rw [runOps, List.foldl_cons, runSet, List.foldl_cons, ← Op.denote_apply hop]
    exact hstep



/-! ### One `Next` -/

namespace Iterator

/-- The first word shifted by the index's low five bits holds the bits from
    the index to the end of its word. -/
theorem testBit_shifted (ws : List UInt32) (bit_index : UInt32) (j : Nat) :
    (ws.getD (bit_index / 32).toNat 0 >>> (bit_index &&& 0x1f)).toNat.testBit j =
      (decide (bit_index.toNat % 32 + j < 32) && bit ws (bit_index.toNat + j)) := by
  have hdiv : (bit_index / 32).toNat = bit_index.toNat / 32 := UInt32.toNat_div _ _
  rw [UInt32.toNat_shiftRight, toNat_and_0x1f, Nat.mod_eq_of_lt (Nat.mod_lt _ (by decide)),
    Nat.testBit_shiftRight, hdiv]
  by_cases hj : bit_index.toNat % 32 + j < 32
  · -- still inside the word: bit `bit_index + j`
    have hsplit : bit_index.toNat + j = 32 * (bit_index.toNat / 32) + (bit_index.toNat % 32 + j) := by
      omega
    rw [hsplit, bit_word _ hj]
    simp [hj]
  · simp [hj, testBit_toNat_of_le _ (Nat.le_of_not_lt hj)]

/-- Rounding the index down to its word, `bit_index_ &= ~0x1f`. -/
theorem toNat_and_not_0x1f (bit_index : UInt32) :
    (bit_index &&& ~~~0x1f).toNat = 32 * (bit_index.toNat / 32) := by
  have hmask : (~~~(0x1f : UInt32)).toNat = (2 ^ (32 - 5) - 1) * 2 ^ 5 := rfl
  rw [UInt32.toNat_and, hmask, MachineWord.and_high_mask bit_index.toNat_lt (by decide)]
  omega

section Loop

variable {ws : List UInt32} {bit_size : UInt32}

/-- The loop of `Next` from word `word_index`, with the index at that
    word's first bit: the first nonzero word after it and the index of its
    first bit, or the end, with only zero words after it. Enough fuel is
    the number of words after it. -/
theorem skipZeroWords_cases (hsize : bit_size.toNat = 32 * ws.length) :
    ∀ (fuel : Nat) (word_index bit_index : UInt32), bit_index.toNat = 32 * word_index.toNat →
      word_index.toNat < ws.length → ws.length ≤ word_index.toNat + 1 + fuel →
      (∃ w bi, word_index.toNat < w ∧ w < ws.length ∧
        (∀ u, word_index.toNat < u → u < w → ws.getD u 0 = 0) ∧ ws.getD w 0 ≠ 0 ∧
        bi.toNat = 32 * w ∧ skipZeroWords ws bit_size fuel word_index bit_index = some (ws.getD w 0, bi)) ∨
      ((∀ u, word_index.toNat < u → u < ws.length → ws.getD u 0 = 0) ∧
        skipZeroWords ws bit_size fuel word_index bit_index = none) := by
  have hbound : 32 * ws.length < 2 ^ 32 := hsize ▸ bit_size.toNat_lt
  intro fuel
  induction fuel with
  | zero =>
    -- no fuel is left only once the last word is reached
    intro word_index bit_index _ _ hfuel
    exact .inr ⟨fun u h1 h2 => absurd h2 (by omega), rfl⟩
  | succ fuel ih =>
    intro word_index bit_index hbi hwi hfuel
    have hnext : (word_index + 1).toNat = word_index.toNat + 1 := by
      rw [UInt32.toNat_add, UInt32.toNat_one]
      omega
    have h32 : (32 : UInt32).toNat = 32 := rfl
    have hoffset : ((word_index + 1) * 32).toNat = 32 * (word_index.toNat + 1) := by
      rw [UInt32.toNat_mul, hnext, h32]
      omega
    have hbi' : (bit_index + 32).toNat = 32 * (word_index.toNat + 1) := by
      rw [UInt32.toNat_add, hbi, h32]
      omega
    rw [skipZeroWords]
    by_cases hend : (word_index + 1) * 32 ≥ bit_size
    · -- the next word is past the end
      rw [if_pos hend]
      have hle := UInt32.le_iff_toNat_le.1 hend
      rw [hoffset, hsize] at hle
      exact .inr ⟨fun u h1 h2 => absurd h2 (by omega), rfl⟩
    · rw [if_neg hend]
      have hlt : ¬ 32 * ws.length ≤ 32 * (word_index.toNat + 1) := by
        rw [← hsize, ← hoffset]
        exact fun h => hend (UInt32.le_iff_toNat_le.2 h)
      dsimp only
      by_cases hzero : ws.getD (word_index + 1).toNat 0 = 0
      · -- a zero word: the loop goes on from it
        rw [if_pos hzero]
        rw [hnext] at hzero
        rcases ih (word_index + 1) (bit_index + 32) (by rw [hbi', hnext]) (by omega) (by omega) with
          ⟨w, bi, hw1, hw2, hzeros, hne, hbi'', hskip⟩ | ⟨hzeros, hskip⟩
        · refine .inl ⟨w, bi, by omega, hw2, fun u h1 h2 => ?_, hne, hbi'', hskip⟩
          rcases Nat.eq_or_lt_of_le (show word_index.toNat + 1 ≤ u by omega) with rfl | hu
          · exact hzero
          · exact hzeros u (by omega) h2
        · refine .inr ⟨fun u h1 h2 => ?_, hskip⟩
          rcases Nat.eq_or_lt_of_le (show word_index.toNat + 1 ≤ u by omega) with rfl | hu
          · exact hzero
          · exact hzeros u (by omega) h2
      · rw [if_neg hzero]
        rw [hnext] at hzero ⊢
        exact .inl ⟨word_index.toNat + 1, bit_index + 32, by omega, by omega,
          fun u h1 h2 => absurd h2 (by omega), hzero, hbi', rfl⟩

end Loop

section Least

variable {ws : List UInt32} {b : Nat}

/-- The lowest bit of the shifted first word is the least set bit from the
    index on. -/
theorem isLeast_shifted {bit_index : UInt32} {t : Nat}
    (ht : IsLeast {j | (ws.getD (bit_index / 32).toNat 0 >>> (bit_index &&& 0x1f)).toNat.testBit j = true} t) :
    IsLeast {i | bit_index.toNat ≤ i ∧ bit ws i = true} (bit_index.toNat + t) := by
  obtain ⟨htset, htmin⟩ := ht
  have hset := htset
  rw [Set.mem_ofPred_eq, testBit_shifted, Bool.and_eq_true, decide_eq_true_iff] at hset
  refine ⟨⟨by omega, hset.2⟩, fun i ⟨hbi, hi⟩ => ?_⟩
  by_contra hlt
  -- a set bit between the index and `t` would be a lower bit of the shifted word
  have hlow : i - bit_index.toNat ∈
      {j | (ws.getD (bit_index / 32).toNat 0 >>> (bit_index &&& 0x1f)).toNat.testBit j = true} := by
    rw [Set.mem_ofPred_eq, testBit_shifted, Nat.add_sub_cancel' hbi, hi]
    simp only [Bool.and_true, decide_eq_true_iff]
    omega
  have := htmin hlow
  omega

/-- The lowest bit of a word found past zero words, after a first word with
    nothing left from `b` on, is the least set bit from `b` on. -/
theorem isLeast_skipped {w t : Nat} (hfirst : ∀ i, b ≤ i → i / 32 = b / 32 → bit ws i = false)
    (hw : b / 32 < w) (hzeros : ∀ u, b / 32 < u → u < w → ws.getD u 0 = 0)
    (ht : IsLeast {j | (ws.getD w 0).toNat.testBit j = true} t) :
    IsLeast {i | b ≤ i ∧ bit ws i = true} (32 * w + t) := by
  obtain ⟨htset, htmin⟩ := ht
  have ht32 : t < 32 := by
    by_contra hge
    rw [Set.mem_ofPred_eq, testBit_toNat_of_le _ (Nat.le_of_not_lt hge)] at htset
    exact Bool.false_ne_true htset
  refine ⟨⟨by omega, by rw [bit_word _ ht32]; exact htset⟩, fun i ⟨hbi, hi⟩ => ?_⟩
  by_contra hlt
  rcases Nat.lt_or_ge (i / 32) w with hbefore | hafter
  · -- in the first word, or in a zero word between
    rcases Nat.eq_or_lt_of_le (show b / 32 ≤ i / 32 by omega) with hsame | hmid
    · rw [hfirst i hbi hsame.symm] at hi
      exact Bool.false_ne_true hi
    · rw [bit_eq_false_of_word_eq_zero (hzeros _ hmid hbefore)] at hi
      exact Bool.false_ne_true hi
  · -- in the found word, below its lowest bit
    have hword : i / 32 = w := by omega
    have hj : i % 32 ∈ {j | (ws.getD w 0).toNat.testBit j = true} := by
      rw [Set.mem_ofPred_eq, ← hword]
      exact hi
    have := htmin hj
    omega

end Least

/-- The search of `Next` from an index before the end: a word with the
    least set bit from the index on as its lowest bit, placed at the
    returned index; or the end, with no set bit from the index on. -/
theorem nextWord_cases (it : Iterator) (hsize : it.bit_size.toNat = 32 * it.bit_storage.length)
    (hb : it.bit_index.toNat < 32 * it.bit_storage.length) :
    (∃ word bi, it.nextWord = some (word, bi) ∧ word ≠ 0 ∧
      ∀ t, IsLeast {j | word.toNat.testBit j = true} t →
        IsLeast {i | it.bit_index.toNat ≤ i ∧ bit it.bit_storage i = true} (bi.toNat + t)) ∨
    (it.nextWord = none ∧ ∀ i, it.bit_index.toNat ≤ i → bit it.bit_storage i = false) := by
  unfold nextWord
  dsimp only
  by_cases hzero : it.bit_storage.getD (it.bit_index / 32).toNat 0 >>> (it.bit_index &&& 0x1f) = 0
  · rw [if_pos hzero]
    -- nothing is left in the first word from the index on
    have hfirst : ∀ i, it.bit_index.toNat ≤ i → i / 32 = it.bit_index.toNat / 32 →
        bit it.bit_storage i = false := by
      intro i hi hword
      have hshift := testBit_shifted it.bit_storage it.bit_index (i - it.bit_index.toNat)
      rw [hzero, Nat.add_sub_cancel' hi] at hshift
      have hin : it.bit_index.toNat % 32 + (i - it.bit_index.toNat) < 32 := by omega
      simpa [hin] using hshift.symm
    have hdiv : (it.bit_index / 32).toNat = it.bit_index.toNat / 32 := UInt32.toNat_div _ _
    have hstart : (it.bit_index &&& ~~~0x1f).toNat = 32 * (it.bit_index / 32).toNat := by
      rw [toNat_and_not_0x1f, hdiv]
    rcases skipZeroWords_cases hsize it.bit_storage.length (it.bit_index / 32)
        (it.bit_index &&& ~~~0x1f) hstart (by omega) (by omega) with
      ⟨w, bi, hw1, _, hzeros, hne, hbi, hskip⟩ | ⟨hzeros, hskip⟩
    · rw [hdiv] at hw1 hzeros
      refine .inl ⟨_, bi, hskip, hne, fun t ht => ?_⟩
      rw [hbi]
      exact isLeast_skipped hfirst hw1 hzeros ht
    · rw [hdiv] at hzeros
      refine .inr ⟨hskip, fun i hi => ?_⟩
      -- past the first word every word is zero, or past the end
      rcases Nat.eq_or_lt_of_le (show it.bit_index.toNat / 32 ≤ i / 32 by omega) with hsame | hlater
      · exact hfirst i hi hsame.symm
      · by_cases hin : i / 32 < it.bit_storage.length
        · exact bit_eq_false_of_word_eq_zero (hzeros _ hlater hin)
        · exact bit_eq_false_of_le (by omega)
  · rw [if_neg hzero]
    exact .inl ⟨_, it.bit_index, rfl, hzero, fun t ht => isLeast_shifted ht⟩

/-- `CTZ` of a nonzero word is its lowest set bit. -/
theorem ctz_spec {word : UInt32} (hword : word ≠ 0) :
    ∃ t, t < 32 ∧ IsLeast {j | word.toNat.testBit j = true} t ∧ ctz word = t.toUInt32 := by
  obtain ⟨t, rest, hbits⟩ := List.exists_cons_of_ne_nil (wordBits_ne_nil hword)
  obtain ⟨ht32, hleast⟩ := isLeast_of_wordBits_eq_cons hbits
  exact ⟨t, ht32, hleast, by rw [ctz, hbits, List.headD_cons]⟩

/-- One `Next`, from an index no further than the end: the least set bit
    from the index on, with the index moved past it; or `-1`, with the index
    at the end. -/
theorem next_cases (it : Iterator) (hsize : it.bit_size.toNat = 32 * it.bit_storage.length)
    (hb : it.bit_index.toNat ≤ 32 * it.bit_storage.length) :
    (∃ m, IsLeast {i | it.bit_index.toNat ≤ i ∧ bit it.bit_storage i = true} m ∧
      it.next = ((UInt32.ofNat m).toInt32, { it with bit_index := UInt32.ofNat (m + 1) })) ∨
    ((∀ i, it.bit_index.toNat ≤ i → bit it.bit_storage i = false) ∧
      it.next = (-1, { it with bit_index := it.bit_size })) := by
  have hbound : 32 * it.bit_storage.length < 2 ^ 32 := hsize ▸ it.bit_size.toNat_lt
  by_cases hge : it.bit_index ≥ it.bit_size
  · -- at the end already
    have hend : it.bit_index.toNat = 32 * it.bit_storage.length := by
      have := UInt32.le_iff_toNat_le.1 hge
      omega
    have hsame : it.bit_index = it.bit_size := UInt32.toNat_inj.1 (by rw [hend, hsize])
    refine .inr ⟨fun i hi => bit_eq_false_of_le (by omega), ?_⟩
    rw [next, if_pos hge]
    cases it
    simp only at hsame ⊢
    rw [hsame]
  · have hlt : it.bit_index.toNat < 32 * it.bit_storage.length := by
      have := UInt32.lt_iff_toNat_lt.1 (UInt32.not_le.1 hge)
      omega
    rcases nextWord_cases it hsize hlt with ⟨word, bi, hfound, hne, hleast⟩ | ⟨hfound, hnone⟩
    · obtain ⟨t, ht32, ht, hctz⟩ := ctz_spec hne
      have hm := hleast t ht
      -- the least set bit is inside the vector, so no sum below wraps
      have hm32 : bi.toNat + t < 32 * it.bit_storage.length := lt_of_bit hm.1.2
      have hnew : bi + (ctz word + 1) = UInt32.ofNat (bi.toNat + t + 1) := by
        apply UInt32.toNat_inj.1
        rw [hctz, UInt32.toNat_add, UInt32.toNat_add, UInt32.toNat_one, UInt32.toNat_ofNat',
          UInt32.toNat_ofNat']
        omega
      have hret : UInt32.ofNat (bi.toNat + t + 1) - 1 = UInt32.ofNat (bi.toNat + t) := by
        apply UInt32.toNat_inj.1
        rw [UInt32.toNat_sub_of_le _ _ (UInt32.le_iff_toNat_le.2 (by
          rw [UInt32.toNat_one, UInt32.toNat_ofNat']; omega)), UInt32.toNat_one, UInt32.toNat_ofNat',
          UInt32.toNat_ofNat']
        omega
      refine .inl ⟨bi.toNat + t, hm, ?_⟩
      rw [next, if_neg hge, hfound]
      dsimp only
      rw [hnew, hret]
    · refine .inr ⟨hnone, ?_⟩
      rw [next, if_neg hge, hfound]

/-! ### A run of `Next` -/

/-- A run of `Next` from an index no further than the end returns the
    members from the index on in increasing order, then `-1` for ever. -/
theorem results_eq (k : Nat) : ∀ it : Iterator, it.bit_size.toNat = 32 * it.bit_storage.length →
    it.bit_index.toNat ≤ 32 * it.bit_storage.length →
    it.results k =
      (((members it.bit_storage).filter (fun i => it.bit_index.toNat ≤ i)).map
        (fun m => (UInt32.ofNat m).toInt32)).take k ++
      List.replicate (k - ((members it.bit_storage).filter (fun i => it.bit_index.toNat ≤ i)).length) (-1) := by
  induction k with
  | zero => intro it _ _; simp [results]
  | succ k ih =>
    intro it hsize hb
    have hbound : 32 * it.bit_storage.length < 2 ^ 32 := hsize ▸ it.bit_size.toNat_lt
    cases hl : (members it.bit_storage).filter (fun i => it.bit_index.toNat ≤ i) with
    | cons m rest =>
      -- `m` is the least member from the index on, and `Next` returns it
      obtain ⟨hleast, hrest⟩ := filter_le_eq_cons (members_pairwise it.bit_storage) hl
      have hleast' : IsLeast {i | it.bit_index.toNat ≤ i ∧ bit it.bit_storage i = true} m := by
        simpa only [mem_members, and_comm] using hleast
      have hm32 : m < 32 * it.bit_storage.length := lt_of_bit hleast'.1.2
      rcases next_cases it hsize hb with ⟨m', hm', hnext⟩ | ⟨hnone, _⟩
      · rw [hm'.unique hleast'] at hnext
        have hidx : (UInt32.ofNat (m + 1)).toNat = m + 1 := by
          rw [UInt32.toNat_ofNat']
          omega
        rw [results, hnext]
        dsimp only
        rw [ih { it with bit_index := UInt32.ofNat (m + 1) } hsize (by dsimp only; rw [hidx]; omega),
          hidx, ← hrest]
        simp
      · have hclear := hnone m hleast'.1.1
        rw [hleast'.1.2] at hclear
        exact absurd hclear (by decide)
    | nil =>
      -- nothing is left: `Next` returns `-1` and moves to the end
      have hnone : ∀ i, it.bit_index.toNat ≤ i → bit it.bit_storage i = false := by
        intro i hi
        by_contra hset
        have := lt_of_filter_le_eq_nil hl i (mem_members.2 (Bool.not_eq_false _ ▸ hset))
        omega
      rcases next_cases it hsize hb with ⟨m', hm', _⟩ | ⟨-, hnext⟩
      · have hclear := hnone m' hm'.1.1
        rw [hm'.1.2] at hclear
        exact absurd hclear (by decide)
      · have hend : ((members it.bit_storage).filter (fun i => it.bit_size.toNat ≤ i)) = [] := by
          rw [List.filter_eq_nil_iff]
          intro i hi
          have := lt_of_bit (mem_members.1 hi)
          simp only [decide_eq_true_iff]
          omega
        rw [results, hnext]
        dsimp only
        rw [ih { it with bit_index := it.bit_size } hsize (by dsimp only; rw [hsize]), hend]
        simp [List.replicate_succ]

/-- A fresh iterator returns the vector's set in increasing order, then `-1`
    for ever, while the size in bits fits its `uint32_t`. -/
theorem results_new (v : ArenaBitVector) (hlen : v.storage.length < 2 ^ 27) (k : Nat) :
    (new v).results k =
      ((v.denote.sort (· ≤ ·)).map fun m => (UInt32.ofNat m).toInt32).take k ++
        List.replicate (k - v.denote.card) (-1) := by
  have hsize : (new v).bit_size.toNat = 32 * (new v).bit_storage.length := by
    show (UInt32.ofNat (v.storage.length * 4 * 8)).toNat = 32 * v.storage.length
    rw [UInt32.toNat_ofNat']
    omega
  -- from index `0` on, every member counts
  have hall : (members v.storage).filter (fun i => (new v).bit_index.toNat ≤ i) = members v.storage :=
    List.filter_eq_self.2 (fun i _ => by simp [new])
  rw [results_eq k _ hsize (by simp [new]), ArenaBitVector.denote, sort_toFinset, card_toFinset]
  exact congrArg (fun l => (l.map fun m => (UInt32.ofNat m).toInt32).take k ++
    List.replicate (k - l.length) (-1)) hall

end Iterator

example : (Iterator.new ⟨false, [0x80000001, 0, 0x4]⟩).results 5 = [0, 31, 66, -1, -1] := by
  decide

/-! ### The set semantics of a run -/

/-- Every run from a fresh vector whose bit numbers stay below `2 ^ 31 - 32`
    keeps the vector the set its set operations build: `IsBitSet` reads
    it within the vector's bits, `NumSetBits` counts it, `Equal` compares it, `SetInitialBits(n)`
    makes a cleared vector `{0, ..., n - 1}`, and a fresh iterator returns
    it in increasing order, then `-1` for ever. -/
theorem arenaBitVector_set_semantics (start_bits : UInt32) (expandable : Bool) (ops : List Op)
    (hstart : start_bits.toNat + 32 < 2 ^ 31)
    (hops : ValidRun (ArenaBitVector.new start_bits expandable) ops) :
    let v := runOps (ArenaBitVector.new start_bits expandable) ops
    let S := runSet ∅ ops
    v.denote = S ∧
    (∀ num : UInt32, num.toNat < 32 * v.storage.length → (v.isBitSet num = true ↔ num.toNat ∈ S)) ∧
    v.numSetBits.toInt = S.card ∧
    (∀ src : ArenaBitVector, src.storage.length = v.storage.length →
      src.expandable = v.expandable → (v.equal src = true ↔ S = src.denote)) ∧
    (∀ num_bits : UInt32, S = ∅ → num_bits.toNat ≤ 32 * v.storage.length →
      (v.setInitialBits num_bits).denote = Finset.range num_bits.toNat) ∧
    ∀ k, ((Iterator.new v).results k).map Int32.toInt =
      ((S.sort (· ≤ ·)).map fun m : Nat => (m : Int)).take k ++ List.replicate (k - S.card) (-1) := by
  intro v S
  have hrun := denote_runOps hops (ArenaBitVector.length_new_lt expandable hstart)
  have hden : v.denote = S :=
    hrun.1.trans (congrArg (runSet · ops) (ArenaBitVector.denote_new start_bits expandable))
  have hlen : v.storage.length < 2 ^ 26 := hrun.2
  refine ⟨hden, fun num _ => ?_, ?_, fun src hl he => ?_, fun num_bits hS hn => ?_, fun k => ?_⟩
  · rw [ArenaBitVector.isBitSet_iff, hden]
  · rw [ArenaBitVector.numSetBits_toInt v hlen, hden]
  · rw [ArenaBitVector.equal_iff v src hl he, hden]
  · -- `SetInitialBits` on the empty set
    rw [show v.setInitialBits num_bits = (Op.setInitialBits num_bits).apply v from rfl,
      @Op.denote_apply v (.setInitialBits num_bits) hn, hden, hS]
    simp [Op.applySet]
  · -- every member is below `2 ^ 31`, so the `int` the iterator returns is the member
    have hsmall : ∀ m ∈ S.sort (· ≤ ·), ((UInt32.ofNat m).toInt32).toInt = (m : Int) := by
      intro m hm
      rw [Finset.mem_sort, ← hden, ArenaBitVector.mem_denote] at hm
      have hm31 : m < 2 ^ 31 := lt_of_lt_of_le (lt_of_bit hm) (by omega)
      rw [MachineWord.toInt_toInt32_of_lt _ (by rw [UInt32.toNat_ofNat']; omega),
        UInt32.toNat_ofNat', Nat.mod_eq_of_lt (by omega)]
    rw [Iterator.results_new v (by omega), ← hden, List.map_append, List.map_take, List.map_map,
      List.map_replicate]
    congr 1
    rw [hden]
    exact congrArg (List.take k) (List.map_congr_left hsmall)

/-- A run from a vector of 40 bits: two bits set, one of them past the end,
    one cleared, a union, and one more set. -/
def smallRun : List Op :=
  [.setBit 3, .setBit 70, .clearBit 3, .union ⟨true, [0x5, 0, 0]⟩, .setBit 5]

theorem arenaBitVector_set_semantics_smallRun :
    (40 : UInt32).toNat + 32 < 2 ^ 31 ∧ ValidRun (ArenaBitVector.new 40 true) smallRun ∧
    let v := runOps (ArenaBitVector.new 40 true) smallRun
    let S := runSet ∅ smallRun
    v.denote = S ∧
    (∀ num : UInt32, num.toNat < 32 * v.storage.length → (v.isBitSet num = true ↔ num.toNat ∈ S)) ∧
    v.numSetBits.toInt = S.card ∧
    (∀ src : ArenaBitVector, src.storage.length = v.storage.length →
      src.expandable = v.expandable → (v.equal src = true ↔ S = src.denote)) ∧
    (∀ num_bits : UInt32, S = ∅ → num_bits.toNat ≤ 32 * v.storage.length →
      (v.setInitialBits num_bits).denote = Finset.range num_bits.toNat) ∧
    ∀ k, ((Iterator.new v).results k).map Int32.toInt =
      ((S.sort (· ≤ ·)).map fun m : Nat => (m : Int)).take k ++ List.replicate (k - S.card) (-1) :=
  ⟨by decide, by decide, arenaBitVector_set_semantics 40 true smallRun (by decide) (by decide)⟩

/-- A fresh expandable vector with bit `2 ^ 31` set: `SetBit` grows it to
    `2 ^ 26 + 1` words. -/
def highBitVector : ArenaBitVector := (ArenaBitVector.new 0 true).setBit 0x80000000

/-- The iterator of `highBitVector` hands its one bit out as the `int`
    `-2 ^ 31`, and then ends. -/
theorem iterator_returns_negative_position :
    highBitVector.isBitSet 0x80000000 = true ∧
      ((Iterator.new highBitVector).results 2).map Int32.toInt = [-2 ^ 31, -1] := by
  have hfresh : (ArenaBitVector.new 0 true).storage = [] := rfl
  have hbits : ∀ i, bit highBitVector.storage i = decide (i = 2 ^ 31) := by
    intro i
    rw [highBitVector, ArenaBitVector.bit_setBit _ (.inr (by decide)), hfresh]
    simp [bit_eq_false_of_le]
  have hden : highBitVector.denote = {2 ^ 31} := by
    ext i
    simp [ArenaBitVector.mem_denote, hbits]
  have hlen : highBitVector.storage.length = 2 ^ 26 + 1 := by
    rw [highBitVector, ArenaBitVector.length_setBit, hfresh]
    decide
  refine ⟨by rw [ArenaBitVector.isBitSet_iff, hden]; decide, ?_⟩
  rw [Iterator.results_new _ (by omega), hden, Finset.sort_singleton, Finset.card_singleton]
  decide

end Compiler

end ArtRuntime
