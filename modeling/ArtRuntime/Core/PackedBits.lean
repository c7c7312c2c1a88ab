import Mathlib

/-!
# Bits Packed into Words

A bit set kept as an array of 32-bit words holds bit `i` as bit `i % 32` of
word `i / 32`. Its operations change the words, a word at a time: or a mask
into one, and a mask out of one, combine two arrays word by word, fill the
first words. Its queries read one bit, count the set bits of every word, and
scan for the next set bit. This module gives a list of words its meaning as
a finite set of bit numbers, and states once how each kind of word update
changes the bits, so that a model of the set operations argues bit by bit
and never about the words again.

The set bits are also listed in increasing order (`members`). A scan that
hands out set bits one at a time is specified against that list; the two
lemmas on sorted lists at the end say how the part of the list at or above a
bound splits into its least element and the part past it.

## Main definitions

* `PackedBits.bit`: Bit `i` of a list of words, clear past the last word.
* `PackedBits.members`: The set bits in increasing order.
* `PackedBits.toFinset`: The set bits as a finite set.
* `PackedBits.wordBits`: The set bits of one word in increasing order.

## Theorems

* `mem_members`, `members_pairwise`, `mem_toFinset`, `sort_toFinset`:
  The members are the set bits, in increasing order, and sorting the set
  gives them back.
* `length_members`: The number of set bits is the sum of the words' counts.
* `eq_of_bit_eq`, `toFinset_inj`: Equally long lists of words with the same
  bits are equal.
* `bit_modify`, `bit_set`, `bit_mapIdx`, `bit_foldl_set_range`,
  `bit_append_replicate_zero`, `bit_replicate_zero`: The bits after each kind
  of word update.
* `isLeast_of_wordBits_eq_cons`, `wordBits_ne_nil`: The head of a word's bits
  is its lowest set bit.
* `filter_le_eq_cons`, `lt_of_filter_le_eq_nil`: The part of a sorted list at
  or above a bound, taken apart at its head.
-/

namespace PackedBits

/-- Bit `i` of words packed low bit first: bit `i % 32` of word `i / 32`.
    Past the last word every bit is clear. -/
def bit (ws : List UInt32) (i : Nat) : Bool := (ws.getD (i / 32) 0).toNat.testBit (i % 32)

/-- The set bits in increasing order. -/
def members (ws : List UInt32) : List Nat := (List.range (32 * ws.length)).filter (bit ws)

/-- The set bits as a finite set. -/
def toFinset (ws : List UInt32) : Finset Nat := (members ws).toFinset

/-- The set bits of one word in increasing order. -/
def wordBits (w : UInt32) : List Nat := (List.range 32).filter fun j => w.toNat.testBit j

/-! ### Bits and members -/

theorem bit_eq_false_of_le {ws : List UInt32} {i : Nat} (h : 32 * ws.length ≤ i) : bit ws i = false := by
  rw [bit, List.getD_eq_default _ _ (by omega)]
  exact Nat.zero_testBit _

theorem lt_of_bit {ws : List UInt32} {i : Nat} (h : bit ws i = true) : i < 32 * ws.length := by
  by_contra hle
  rw [bit_eq_false_of_le (by omega)] at h
  exact Bool.false_ne_true h

/-- Bit `j` of word `w`. -/
theorem bit_word (ws : List UInt32) {w j : Nat} (hj : j < 32) :
    bit ws (32 * w + j) = (ws.getD w 0).toNat.testBit j := by
  have hdiv : (32 * w + j) / 32 = w := by omega
  have hmod : (32 * w + j) % 32 = j := by omega
  rw [bit, hdiv, hmod]

/-- A zero word has no set bit. -/
theorem bit_eq_false_of_word_eq_zero {ws : List UInt32} {i : Nat} (h : ws.getD (i / 32) 0 = 0) :
    bit ws i = false := by
  rw [bit, h]
  exact Nat.zero_testBit _

@[simp] theorem mem_members {ws : List UInt32} {i : Nat} : i ∈ members ws ↔ bit ws i = true := by
  rw [members, List.mem_filter, List.mem_range]
  exact ⟨fun h => h.2, fun h => ⟨lt_of_bit h, h⟩⟩

theorem members_pairwise (ws : List UInt32) : (members ws).Pairwise (· < ·) :=
  List.pairwise_lt_range.filter _

@[simp] theorem mem_toFinset {ws : List UInt32} {i : Nat} : i ∈ toFinset ws ↔ bit ws i = true := by
  rw [toFinset, List.mem_toFinset, mem_members]

theorem sort_toFinset (ws : List UInt32) : (toFinset ws).sort (· ≤ ·) = members ws :=
  (List.toFinset_sort _ (members_pairwise ws).nodup).2 ((members_pairwise ws).imp le_of_lt)

/-! ### Counting -/

/-- The members of a word in front of others: its own bits, then theirs
    moved up by a word. -/
theorem members_cons (w : UInt32) (ws : List UInt32) :
    members (w :: ws) = wordBits w ++ (members ws).map (32 + ·) := by
  have hlen : 32 * (w :: ws).length = 32 + 32 * ws.length := by
    rw [List.length_cons, Nat.mul_succ, Nat.add_comm]
  have hlow : (List.range 32).filter (bit (w :: ws)) = wordBits w := by
    apply List.filter_congr
    intro j hj
    have hword := bit_word (w :: ws) (w := 0) (List.mem_range.1 hj)
    rwa [Nat.mul_zero, Nat.zero_add, List.getD_cons_zero] at hword
  have hhigh : (List.range (32 * ws.length)).filter (bit (w :: ws) ∘ (32 + ·)) = members ws := by
    apply List.filter_congr
    intro i _
    -- a word further on is the next word of the tail
    have hdiv : (32 + i) / 32 = i / 32 + 1 := by omega
    have hmod : (32 + i) % 32 = i % 32 := by omega
    simp only [Function.comp, bit, hdiv, hmod, List.getD_cons_succ]
  rw [members, hlen, List.range_add, List.filter_append, List.filter_map, hlow, hhigh]

/-- The number of set bits is the sum of the words' counts. -/
theorem length_members (ws : List UInt32) :
    (members ws).length = (ws.map fun w => (wordBits w).length).sum := by
  induction ws with
  | nil => rfl
  | cons w ws ih =>
    rw [members_cons, List.length_append, List.length_map, ih, List.map_cons, List.sum_cons]

theorem card_toFinset (ws : List UInt32) : (toFinset ws).card = (members ws).length :=
  List.toFinset_card_of_nodup (members_pairwise ws).nodup

/-! ### Equality -/

/-- Equally long lists of words with the same bits are equal: each word is
    determined by its 32 bits. -/
theorem eq_of_bit_eq {ws us : List UInt32} (hlen : ws.length = us.length)
    (h : ∀ i, bit ws i = bit us i) : ws = us := by
  apply List.ext_getElem hlen
  intro w hw hu
  apply UInt32.toNat_inj.1
  apply Nat.eq_of_testBit_eq
  intro j
  by_cases hj : j < 32
  · have hbit := h (32 * w + j)
    rwa [bit_word _ hj, bit_word _ hj, List.getD_eq_getElem _ _ hw,
      List.getD_eq_getElem _ _ hu] at hbit
  · -- above bit 31 both words are clear
    have hpow : 2 ^ 32 ≤ 2 ^ j := Nat.pow_le_pow_right (by decide) (by omega)
    rw [Nat.testBit_lt_two_pow (lt_of_lt_of_le (UInt32.toNat_lt _) hpow),
      Nat.testBit_lt_two_pow (lt_of_lt_of_le (UInt32.toNat_lt _) hpow)]

theorem toFinset_inj {ws us : List UInt32} (hlen : ws.length = us.length) :
    toFinset ws = toFinset us ↔ ws = us := by
  constructor
  · intro h
    apply eq_of_bit_eq hlen
    intro i
    have hmem := Finset.ext_iff.1 h i
    rw [mem_toFinset, mem_toFinset] at hmem
    exact Bool.eq_iff_iff.2 hmem
  · rintro rfl
    rfl

/-! ### Word updates -/

/-- Changing word `k` by `f` changes the bits of that word only; there is no
    word `k` to change past the end. -/
theorem bit_modify (ws : List UInt32) (k : Nat) (f : UInt32 → UInt32) (i : Nat) :
    bit (ws.modify k f) i =
      if i / 32 = k ∧ k < ws.length then (f (ws.getD k 0)).toNat.testBit (i % 32) else bit ws i := by
  unfold bit
  rw [List.getD_eq_getElem?_getD, List.getElem?_modify]
  by_cases hlt : i / 32 < ws.length
  · rw [List.getElem?_eq_getElem hlt, Option.map_eq_map, Option.map_some, Option.getD_some,
      List.getD_eq_getElem _ _ hlt]
    by_cases hk : i / 32 = k
    · subst hk
      simp [hlt]
    · simp [hk, Ne.symm hk]
  · -- past the end nothing is changed and every bit is clear
    have hk : ¬ (i / 32 = k ∧ k < ws.length) := fun h => hlt (h.1 ▸ h.2)
    rw [List.getElem?_eq_none (by omega), if_neg hk, List.getD_eq_default _ _ (by omega)]
    rfl

/-- Writing `a` into word `k`. -/
theorem bit_set (ws : List UInt32) (k : Nat) (a : UInt32) (i : Nat) :
    bit (ws.set k a) i = if i / 32 = k ∧ k < ws.length then a.toNat.testBit (i % 32) else bit ws i := by
  have hset : ws.set k a = ws.modify k fun _ => a := by
    apply List.ext_getElem?
    intro j
    rw [List.getElem?_set, List.getElem?_modify]
    by_cases hkj : k = j
    · subst hkj
      by_cases hlt : k < ws.length <;> simp [hlt]
    · simp [hkj]
  rw [hset, bit_modify]

/-- Combining every word with the word at the same place in `us`. -/
theorem bit_mapIdx (ws us : List UInt32) (f : UInt32 → UInt32 → UInt32) (i : Nat) :
    bit (ws.mapIdx fun idx w => f w (us.getD idx 0)) i =
      (decide (i / 32 < ws.length) &&
        (f (ws.getD (i / 32) 0) (us.getD (i / 32) 0)).toNat.testBit (i % 32)) := by
  unfold bit
  rw [List.getD_eq_getElem?_getD, List.getElem?_mapIdx]
  by_cases hlt : i / 32 < ws.length
  · rw [List.getElem?_eq_getElem hlt, List.getD_eq_getElem _ 0 hlt]
    simp [hlt]
  · rw [List.getElem?_eq_none (by omega)]
    simp [hlt]

theorem length_foldl_set_range (ws : List UInt32) (k : Nat) (a : UInt32) :
    ((List.range k).foldl (fun s idx => s.set idx a) ws).length = ws.length := by
  induction k with
  | zero => rfl
  | succ k ih => rw [List.range_succ, List.foldl_append, List.foldl_cons, List.foldl_nil,
      List.length_set, ih]

/-- Writing `a` into each of the first `k` words. -/
theorem bit_foldl_set_range (ws : List UInt32) (k : Nat) (a : UInt32) (i : Nat) :
    bit ((List.range k).foldl (fun s idx => s.set idx a) ws) i =
      if i / 32 < k ∧ i / 32 < ws.length then a.toNat.testBit (i % 32) else bit ws i := by
  induction k with
  | zero => simp
  | succ k ih =>
    -- the last round writes word `k` over what the first `k` rounds left
    rw [List.range_succ, List.foldl_append, List.foldl_cons, List.foldl_nil, bit_set,
      length_foldl_set_range, ih]
    by_cases hk : i / 32 = k
    · simp [hk]
    · have hiff : (i / 32 < k + 1) ↔ (i / 32 < k) := by omega
      simp [hk, hiff]

/-- Zero words added at the end add no bits. -/
theorem bit_append_replicate_zero (ws : List UInt32) (k i : Nat) :
    bit (ws ++ List.replicate k 0) i = bit ws i := by
  unfold bit
  by_cases hlt : i / 32 < ws.length
  · rw [List.getD_append _ _ _ _ hlt]
  · rw [List.getD_append_right _ _ _ _ (by omega), List.getD_eq_default ws 0 (by omega),
      List.getD_eq_getElem?_getD, List.getElem?_replicate]
    split_ifs <;> rfl

theorem bit_replicate_zero (k i : Nat) : bit (List.replicate k 0) i = false := by
  have happ := bit_append_replicate_zero [] k i
  rw [List.nil_append] at happ
  rw [happ]
  exact bit_eq_false_of_le (by simp)

/-! ### The lowest set bit of a word -/

theorem mem_wordBits {w : UInt32} {j : Nat} : j ∈ wordBits w ↔ j < 32 ∧ w.toNat.testBit j = true := by
  rw [wordBits, List.mem_filter, List.mem_range]

/-- The head of a word's bits is set, and no bit below it is. -/
theorem isLeast_of_wordBits_eq_cons {w : UInt32} {t : Nat} {rest : List Nat}
    (h : wordBits w = t :: rest) : t < 32 ∧ IsLeast {j | w.toNat.testBit j = true} t := by
  have hsorted : (t :: rest).Pairwise (· < ·) := h ▸ List.pairwise_lt_range.filter _
  have ht := mem_wordBits.1 (h ▸ List.mem_cons_self)
  refine ⟨ht.1, ht.2, fun j hj => ?_⟩
  by_contra hlt
  -- a lower set bit would stand in the list before its head
  have hmem : j ∈ t :: rest := h ▸ mem_wordBits.2 ⟨by omega, hj⟩
  rcases List.mem_cons.1 hmem with rfl | hrest
  · exact hlt (le_refl _)
  · exact hlt (le_of_lt (List.rel_of_pairwise_cons hsorted hrest))

theorem wordBits_ne_nil {w : UInt32} (hw : w ≠ 0) : wordBits w ≠ [] := by
  obtain ⟨j, hj⟩ := Nat.exists_testBit_of_ne_zero (fun h0 => hw (UInt32.toNat_inj.1 h0))
  have hj32 : j < 32 := by
    by_contra hge
    have hpow : 2 ^ 32 ≤ 2 ^ j := Nat.pow_le_pow_right (by decide) (by omega)
    rw [Nat.testBit_lt_two_pow (lt_of_lt_of_le (UInt32.toNat_lt _) hpow)] at hj
    exact Bool.false_ne_true hj
  exact List.ne_nil_of_mem (mem_wordBits.2 ⟨hj32, hj⟩)

/-! ### Sorted lists from a bound on -/

/-- The part of a sorted list at or above `b`, when it starts with `m`: `m`
    is the least element at or above `b`, and the rest is the part above `m`. -/
theorem filter_le_eq_cons {l : List Nat} (hl : l.Pairwise (· < ·)) {b m : Nat} {rest : List Nat}
    (h : l.filter (fun x => b ≤ x) = m :: rest) :
    IsLeast {x | x ∈ l ∧ b ≤ x} m ∧ rest = l.filter (fun x => m + 1 ≤ x) := by
  have hsorted : (m :: rest).Pairwise (· < ·) := h ▸ hl.filter _
  have hmem : ∀ x, x ∈ m :: rest ↔ x ∈ l ∧ b ≤ x := fun x => by
    rw [← h, List.mem_filter, decide_eq_true_iff]
  have hm := (hmem m).1 List.mem_cons_self
  refine ⟨⟨hm, fun x hx => ?_⟩, ?_⟩
  · rcases List.mem_cons.1 ((hmem x).2 hx) with rfl | hrest
    · exact le_refl _
    · exact le_of_lt (List.rel_of_pairwise_cons hsorted hrest)
  · apply hsorted.of_cons.eq_of_mem_iff (hl.filter _)
    intro x
    rw [List.mem_filter, decide_eq_true_iff]
    constructor
    · intro hx
      have hlt := List.rel_of_pairwise_cons hsorted hx
      exact ⟨((hmem x).1 (List.mem_cons_of_mem m hx)).1, hlt⟩
    · rintro ⟨hxl, hx⟩
      rcases List.mem_cons.1 ((hmem x).2 ⟨hxl, by omega⟩) with rfl | hrest
      · omega
      · exact hrest

theorem lt_of_filter_le_eq_nil {l : List Nat} {b : Nat} (h : l.filter (fun x => b ≤ x) = []) :
    ∀ x ∈ l, x < b := by
  intro x hx
  have hnot := List.filter_eq_nil_iff.1 h x hx
  rw [decide_eq_true_iff] at hnot
  omega

end PackedBits
