import Mathlib.Data.List.Range
import Mathlib.Tactic.SplitIfs
import ArtRuntime.Core.Word

/-!
# Aging the Card Table

`CardTable::ModifyCardsAtomic(scan_begin, scan_end, visitor, modified)`
replaces every card `c` of a heap range by `visitor(c)` and calls
`modified(card, old, new)` for each card it changes; the mod-union tables
pass `AgeCardVisitor` and record the cards that were dirty as the ones to
rescan. It works in three phases: the cards before the first word boundary
one at a time, the cards after the last word boundary one at a time from the
end, and the whole words between four cards at a time.

The model runs without concurrent writers. The memory is a function from
byte addresses to bytes; the cards are the bytes at `CardFromAddr` of heap
addresses, and a word is read and written little-endian, as on the targets
of this runtime. The head and tail loops change a card through `byte_cas`
and retry it until it succeeds. `byte_cas` computes the card's offset in its
word as a count of bytes and shifts its masks by it as a count of bits, so
it is a compare-and-swap of the card only on the first card of a word
(`byteCas_aligned`); without concurrent writers a failed `byte_cas` fails on
every retry (`casCard_never_ends`), and the loop does not end. The word loop
swaps whole words, which succeeds at its first try.

On a range whose head is empty and whose tail is one card, the first of a
word, every compare-and-swap succeeds. Even there the tail loop passes
`card_cur`, the first card after the head, to `modified` where its own card
belongs: the tail card changes, is reported under another card's address,
and never under its own (`modifyCardsAtomic_tail_card_address`).
`ModUnionTableReferenceCache` therefore ages the dirty tail card without
recording it (`clearCards_misses_tail_card`).

## Main definitions

* `CardTable`, `CardTable.cardFromAddr`: Cards and the heap they cover.
* `ageCardVisitor`: `AgeCardVisitor`.
* `byteCas`: `byte_cas`.
* `casCard`: The retry loop around it in `ModifyCardsAtomic`.
* `headLoop`, `tailLoop`, `wordLoop`: The three phases.
* `CardTable.modifyCardsAtomic`: `CardTable::ModifyCardsAtomic`.
* `ownReports`: The calls of `modified` a range of cards should give.
* `clearCards`: The cards `ModUnionTableReferenceCache::ClearCards`
  records.

## Theorems

* `byteCas_aligned`: On the first card of a word, `byte_cas` is a compare
  and swap of that card.
* `casCard_never_ends`: A retry loop whose first `byte_cas` fails runs out
  of any amount of fuel.
* `casCard_succ`: Any number of rounds ends as the first one does.
* `wordLoop_spec`: The word phase visits its cards and reports each change
  under its own address.
* `modifyCardsAtomic_one_tail`: A range from a word boundary to one card
  past one, phase by phase.
* `modifyCardsAtomic_tail_card_address`: There the changed tail card is
  reported under the head's end, never under its own address.
* `clearCards_misses_tail_card`: A dirty tail card is aged but not recorded.
-/

namespace ArtRuntime

namespace Gc

open MachineWord

/-- `kCardShift`: a card covers `2 ^ 7` bytes of heap. -/
def kCardShift : Nat := 7

/-- `kCardDirty`. -/
def kCardDirty : UInt8 := 0x70

/-- `sizeof(word)`, also `sizeof(uintptr_t)`: the loops align card pointers
    to it and the word phase reads cards four at a time, as `int32_t` on
    the 32-bit targets. -/
def kWordSize : Nat := 4

/-- The card table: the biased begin that `CardFromAddr` adds to, and the
    memory the cards are bytes of. -/
structure CardTable where
  biased_begin : Nat
  mem : Nat → UInt8

/-- `CardTable::CardFromAddr`. -/
def CardTable.cardFromAddr (t : CardTable) (addr : Nat) : Nat :=
  t.biased_begin + (addr >>> kCardShift)

/-- `AgeCardVisitor`: a dirty card becomes `kCardDirty - 1`, any other card
    clean. -/
def ageCardVisitor (card : UInt8) : UInt8 :=
  if card = kCardDirty then card - 1 else 0

/-- The `uintptr_t` at `a`, little-endian. -/
def loadWord (mem : Nat → UInt8) (a : Nat) : UInt32 :=
  ofBytes (mem a) (mem (a + 1)) (mem (a + 2)) (mem (a + 3))

/-- Memory with the word `w` stored at `a`, little-endian. -/
def storeWord (mem : Nat → UInt8) (a : Nat) (w : UInt32) : Nat → UInt8 :=
  fun x => if a ≤ x ∧ x < a + kWordSize then byteLane w (x - a) else mem x


/-! ### `byte_cas` -/

/-- `android_atomic_cas(old_value, new_value, address)` without interference:
    it stores `new_value` when the word at `address` is `old_value`, and says
    whether it did. -/
def atomicCas (mem : Nat → UInt8) (old_value new_value : UInt32) (address : Nat) :
    Bool × (Nat → UInt8) :=
  if loadWord mem address = old_value then (true, storeWord mem address new_value) else (false, mem)

/-- `byte_cas`. The shift is the card's offset in its word, a count of
    bytes; the masks are shifted by it as a count of bits. -/
def byteCas (mem : Nat → UInt8) (old_value new_value : UInt8) (address : Nat) :
    Bool × (Nat → UInt8) :=
  let shift := address % kWordSize
  let word_address := address - shift
  -- the word with the byte we are trying to cas cleared
  let cur_word := loadWord mem word_address &&& ~~~((0xFF : UInt32) <<< shift.toUInt32)
  let old_word := cur_word ||| (old_value.toUInt32 <<< shift.toUInt32)
  let new_word := cur_word ||| (new_value.toUInt32 <<< shift.toUInt32)
  atomicCas mem old_word new_word word_address

/-- The loop `ModifyCardsAtomic` runs on each head and tail card,

        do {
          expected = *card_cur;
          new_value = visitor(expected);
        } while (expected != new_value && !byte_cas(expected, new_value, card_cur));

    for at most `fuel` rounds: the memory after it, or none when the rounds
    run out. -/
def casCard (visitor : UInt8 → UInt8) (card : Nat) : Nat → (Nat → UInt8) → Option (Nat → UInt8)
  | 0, _ => none
  | fuel + 1, mem =>
    let expected := mem card
    let new_value := visitor expected
    if expected ≠ new_value then
      match byteCas mem expected new_value card with
      | (true, mem') => some mem'
      | (false, mem') => casCard visitor card fuel mem'
    else some mem

theorem byteCas_of_fail {mem : Nat → UInt8} {old_value new_value : UInt8} {address : Nat}
    (h : (byteCas mem old_value new_value address).1 = false) :
    byteCas mem old_value new_value address = (false, mem) := by
  revert h
  simp only [byteCas, atomicCas]
  split
  · intro h
    cases h
  · intro _
    rfl

/-- Without interference nothing changes between two rounds, so a retry
    loop whose first compare-and-swap fails fails on every round. -/
theorem casCard_never_ends (visitor : UInt8 → UInt8) (card : Nat) (mem : Nat → UInt8)
    (hchange : mem card ≠ visitor (mem card))
    (hfail : (byteCas mem (mem card) (visitor (mem card)) card).1 = false) (fuel : Nat) :
    casCard visitor card fuel mem = none := by
  induction fuel with
  | zero => rfl
  | succ fuel ih =>
    simp only [casCard, if_pos hchange, byteCas_of_fail hfail]
    exact ih

/-- Without interference the first round decides the loop: any positive
    number of rounds ends as one round does. -/
theorem casCard_succ (visitor : UInt8 → UInt8) (card : Nat) (mem : Nat → UInt8) (fuel : Nat) :
    casCard visitor card (fuel + 1) mem = casCard visitor card 1 mem := by
  by_cases hchange : mem card ≠ visitor (mem card)
  · rcases hcas : byteCas mem (mem card) (visitor (mem card)) card with ⟨_ | _, mem'⟩
    · -- a failed round leaves the memory as it was, and every later round fails
      have hfail : (byteCas mem (mem card) (visitor (mem card)) card).1 = false := by rw [hcas]
      have hsame : mem' = mem := by
        have h := byteCas_of_fail hfail
        rw [hcas] at h
        exact (Prod.mk.inj h).2
      simp only [casCard, if_pos hchange, hcas, hsame]
      exact casCard_never_ends visitor card mem hchange hfail fuel
    · simp only [casCard, if_pos hchange, hcas]
  · simp only [casCard, if_neg hchange]

/-- The low byte of a word replaced by `x`. -/
theorem ofBytes_and_not_ff_or (b0 b1 b2 b3 x : UInt8) :
    (ofBytes b0 b1 b2 b3 &&& ~~~((0xFF : UInt32) <<< 0)) ||| (x.toUInt32 <<< 0) = ofBytes x b1 b2 b3 := by
  apply UInt32.toNat_inj.mp
  have hx := x.toNat_lt
  have h0 := b0.toNat_lt
  have hmask : (~~~((0xFF : UInt32) <<< 0)).toNat = 2 ^ 32 - 2 ^ 8 := rfl
  rw [UInt32.toNat_or, toNat_and_high_mask _ _ (by decide) hmask, toNat_ofBytes, toNat_ofBytes,
    UInt32.shiftLeft_zero, UInt8.toNat_toUInt32, Nat.or_comm, or_mul_two_pow_eq_add _ hx]
  omega

/-- On the first card of a word, `byte_cas` compares and swaps that card and
    leaves the other three. -/
theorem byteCas_aligned (mem : Nat → UInt8) (old_value new_value : UInt8) {address : Nat}
    (h : address % kWordSize = 0) :
    byteCas mem old_value new_value address =
      if mem address = old_value then (true, Function.update mem address new_value)
      else (false, mem) := by
  have hk : kWordSize = 4 := rfl
  simp only [byteCas, atomicCas, h, Nat.sub_zero, loadWord, show (0 : Nat).toUInt32 = 0 from rfl,
    ofBytes_and_not_ff_or]
  by_cases hold : mem address = old_value
  · rw [if_pos hold, if_pos (by rw [hold])]
    congr 1
    funext x
    unfold storeWord
    by_cases hx : x = address
    · subst hx
      rw [if_pos (by omega), Nat.sub_self, Function.update_self]
      exact (byteLane_ofBytes _ _ _ _).1
    · rw [Function.update_of_ne hx]
      split
      · -- one of the three other cards of the word: its lane is the card itself
        rename_i hin
        have hlane := byteLane_ofBytes_fun
          (fun i => if i = 0 then new_value else mem (address + i)) (i := x - address) (by omega)
        simp +decide only [↓reduceIte] at hlane
        rw [hlane, if_neg (by omega), Nat.add_sub_cancel' (by omega)]
      · rfl
  · rw [if_neg hold, if_neg]
    intro hw
    exact hold (ofBytes_eq_iff.mp hw.symm).1.symm

/-- On the first card of a word the loop ends at its first round, with the
    card changed to the visitor's value. -/
theorem casCard_aligned (visitor : UInt8 → UInt8) {card : Nat} (h : card % kWordSize = 0)
    (mem : Nat → UInt8) :
    casCard visitor card 1 mem = some (Function.update mem card (visitor (mem card))) := by
  by_cases hchange : mem card ≠ visitor (mem card)
  · simp only [casCard, if_pos hchange, byteCas_aligned mem _ _ h, ↓reduceIte]
  · have hsame : mem card = visitor (mem card) := not_not.mp hchange
    simp only [casCard, if_neg hchange]
    rw [← hsame, Function.update_eq_self]

/-! ### The loops -/

/-- What the loops of `ModifyCardsAtomic` change: the memory, and the calls
    of `modified` so far, each with the card pointer, the old value and the
    new value it is passed. -/
structure Scan where
  mem : Nat → UInt8
  modified : List (Nat × UInt8 × UInt8)


/-- One card of the head or tail loop: the retry loop of `byte_cas` on the
    card, then, if the visitor changed the card, `modified` called with the
    pointer `reported`. Without concurrent writers the loop's first round
    decides it, since a `byte_cas` that fails fails again on every retry
    (`casCard_succ`): one round is run, and none stands for a loop that
    does not end. -/
def Scan.modifyCard (s : Scan) (visitor : UInt8 → UInt8) (card reported : Nat) : Option Scan :=
  let expected := s.mem card
  let new_value := visitor expected
  (casCard visitor card 1 s.mem).map fun mem =>
    if expected ≠ new_value then ⟨mem, s.modified ++ [(reported, expected, new_value)]⟩
    else ⟨mem, s.modified⟩

/-- "Handle any unaligned cards at the start." -/
def headLoop (visitor : UInt8 → UInt8) (card_end : Nat) (s : Scan) (card_cur : Nat) :
    Option (Scan × Nat) :=
  if card_cur % kWordSize ≠ 0 ∧ card_cur < card_end then
    (s.modifyCard visitor card_cur card_cur).bind fun s => headLoop visitor card_end s (card_cur + 1)
  else some (s, card_cur)
termination_by card_end - card_cur

/-- "Handle unaligned cards at the end." The card is the one below
    `card_end`; `modified` is passed `card_cur`. -/
def tailLoop (visitor : UInt8 → UInt8) (card_cur : Nat) (s : Scan) (card_end : Nat) :
    Option (Scan × Nat) :=
  if card_end % kWordSize ≠ 0 ∧ card_end > card_cur then
    (s.modifyCard visitor (card_end - 1) card_cur).bind fun s =>
      tailLoop visitor card_cur s (card_end - 1)
  else some (s, card_end)
termination_by card_end - card_cur

/-- One word of the word loop: a word that is not zero gets the visitor's
    value in each of its four bytes, and `modified` is called for each byte
    that changed, with the byte's own address. -/
def Scan.modifyWord (s : Scan) (visitor : UInt8 → UInt8) (word_cur : Nat) : Scan :=
  let expected_word := loadWord s.mem word_cur
  if expected_word ≠ 0 then
    let new_word :=
      ((visitor (byteLane expected_word 0)).toUInt32 <<< 0) |||
        ((visitor (byteLane expected_word 1)).toUInt32 <<< 8) |||
        ((visitor (byteLane expected_word 2)).toUInt32 <<< 16) |||
        ((visitor (byteLane expected_word 3)).toUInt32 <<< 24)
    if new_word = expected_word then s
    else
      ⟨storeWord s.mem word_cur new_word,
        s.modified ++ (List.range kWordSize).filterMap fun i =>
          let expected_byte := byteLane expected_word i
          let new_byte := byteLane new_word i
          if expected_byte ≠ new_byte then some (word_cur + i, expected_byte, new_byte)
          else none⟩
  else s

/-- "Now we have the words": the words from `word_cur` to `word_end`. -/
def wordLoop (visitor : UInt8 → UInt8) (word_end : Nat) (s : Scan) (word_cur : Nat) : Scan :=
  if word_cur < word_end then
    wordLoop visitor word_end (s.modifyWord visitor word_cur) (word_cur + kWordSize)
  else s
termination_by word_end - word_cur
decreasing_by
  simp only [kWordSize]
  omega


/-- `CardTable::ModifyCardsAtomic` over the cards of `[scan_begin,
    scan_end)`, which the table covers; none when a retry loop of the head
    or the tail does not end. -/
def CardTable.modifyCardsAtomic (t : CardTable) (scan_begin scan_end : Nat)
    (visitor : UInt8 → UInt8) : Option Scan := do
  let card_cur := t.cardFromAddr scan_begin
  let card_end := t.cardFromAddr scan_end
  let (s, card_cur) ← headLoop visitor card_end ⟨t.mem, []⟩ card_cur
  let (s, card_end) ← tailLoop visitor card_cur s card_end
  return wordLoop visitor card_end s card_cur

/-- `ModUnionTableReferenceCache::ClearCards`: the cards
    `ModUnionClearCardSetVisitor` inserts into `cleared_cards_`, those that
    `modified` reports as having been dirty. -/
def clearCards (t : CardTable) (space_begin space_end : Nat) : Option (List Nat) :=
  (t.modifyCardsAtomic space_begin space_end ageCardVisitor).map fun s =>
    s.modified.filterMap fun (card, expected_value, _) =>
      if expected_value = kCardDirty then some card else none

/-! ### What the phases do -/

/-- The calls of `modified` that the cards `[lo, hi)` of `mem` should give,
    in address order: each card the visitor changes, with its own address. -/
def ownReports (mem : Nat → UInt8) (visitor : UInt8 → UInt8) (lo hi : Nat) :
    List (Nat × UInt8 × UInt8) :=
  ((List.range' lo (hi - lo)).filter fun c => mem c ≠ visitor (mem c)).map
    fun c => (c, mem c, visitor (mem c))

/-- Memory with the cards `[lo, hi)` replaced by the visitor's value. -/
def visitRange (mem : Nat → UInt8) (visitor : UInt8 → UInt8) (lo hi : Nat) : Nat → UInt8 :=
  fun x => if lo ≤ x ∧ x < hi then visitor (mem x) else mem x

variable (visitor : UInt8 → UInt8)

theorem mem_ownReports {m : Nat → UInt8} {lo hi : Nat} {r : Nat × UInt8 × UInt8} :
    r ∈ ownReports m visitor lo hi ↔
      lo ≤ r.1 ∧ r.1 < hi ∧ m r.1 ≠ visitor (m r.1) ∧ r.2 = (m r.1, visitor (m r.1)) := by
  obtain ⟨c, old, new⟩ := r
  simp only [ownReports, List.mem_map, List.mem_filter, List.mem_range'_1, decide_eq_true_eq,
    Prod.mk.injEq]
  constructor
  · rintro ⟨c', ⟨⟨h1, h2⟩, hc⟩, rfl, rfl, rfl⟩
    exact ⟨h1, by omega, hc, rfl, rfl⟩
  · rintro ⟨h1, h2, hc, rfl, rfl⟩
    exact ⟨c, ⟨⟨h1, by omega⟩, hc⟩, rfl, rfl, rfl⟩

theorem ownReports_congr {m m' : Nat → UInt8} {lo hi : Nat}
    (h : ∀ x, lo ≤ x → x < hi → m' x = m x) : ownReports m' visitor lo hi = ownReports m visitor lo hi := by
  unfold ownReports
  have hmem : ∀ c ∈ List.range' lo (hi - lo), m' c = m c := by
    intro c hc
    rw [List.mem_range'_1] at hc
    exact h c hc.1 (by omega)
  rw [List.filter_congr fun c hc => by rw [hmem c hc]]
  refine List.map_congr_left fun c hc => ?_
  rw [hmem c (List.mem_filter.mp hc).1]

theorem ownReports_append (m : Nat → UInt8) {lo mid hi : Nat} (h1 : lo ≤ mid) (h2 : mid ≤ hi) :
    ownReports m visitor lo mid ++ ownReports m visitor mid hi = ownReports m visitor lo hi := by
  unfold ownReports
  rw [← List.map_append, ← List.filter_append,
    show hi - lo = (mid - lo) + (hi - mid) by omega, ← List.range'_append_1,
    show lo + (mid - lo) = mid by omega]

theorem ownReports_empty (m : Nat → UInt8) {lo hi : Nat} (h : hi ≤ lo) :
    ownReports m visitor lo hi = [] := by
  simp [ownReports, Nat.sub_eq_zero_of_le h]


theorem visitRange_empty (m : Nat → UInt8) {lo hi : Nat} (h : hi ≤ lo) :
    visitRange m visitor lo hi = m := by
  funext x
  simp only [visitRange]
  rw [if_neg (by omega)]

/-- Two ranges side by side visit their union. -/
theorem visitRange_visitRange (m : Nat → UInt8) {lo mid hi : Nat} (h1 : lo ≤ mid)
    (h2 : mid ≤ hi) :
    visitRange (visitRange m visitor lo mid) visitor mid hi = visitRange m visitor lo hi := by
  funext x
  simp only [visitRange]
  split_ifs <;> first | rfl | omega


/-- The word at `a` is the four bytes from `a`. -/
theorem byteLane_loadWord (mem : Nat → UInt8) (a : Nat) {i : Nat} (hi : i < 4) :
    byteLane (loadWord mem a) i = mem (a + i) :=
  byteLane_ofBytes_fun (fun i => mem (a + i)) hi

/-- The calls of `modified` over one word, as its loop over the four lanes
    makes them. -/
theorem ownReports_word (m : Nat → UInt8) (a : Nat) :
    ownReports m visitor a (a + kWordSize) =
      (List.range kWordSize).filterMap fun i =>
        if m (a + i) ≠ visitor (m (a + i)) then some (a + i, m (a + i), visitor (m (a + i)))
        else none := by
  unfold ownReports
  rw [show a + kWordSize - a = kWordSize by omega, List.range'_eq_map_range, List.filter_map,
    List.map_map, ← List.filterMap_eq_map, List.filterMap_filter]
  refine List.filterMap_congr fun i _ => ?_
  simp only [Function.comp_apply, decide_eq_true_eq]

theorem visitRange_of_unchanged {m : Nat → UInt8} {lo hi : Nat}
    (h : ∀ x, lo ≤ x → x < hi → visitor (m x) = m x) : visitRange m visitor lo hi = m := by
  funext x
  simp only [visitRange]
  split
  · rename_i hx
    exact h x hx.1 hx.2
  · rfl

theorem ownReports_of_unchanged {m : Nat → UInt8} {lo hi : Nat}
    (h : ∀ x, lo ≤ x → x < hi → visitor (m x) = m x) : ownReports m visitor lo hi = [] := by
  refine List.eq_nil_iff_forall_not_mem.mpr fun r hr => ?_
  obtain ⟨hlo, hhi, hc, -⟩ := (mem_ownReports visitor).mp hr
  exact hc (h r.1 hlo hhi).symm

theorem byteLane_zero (i : Nat) : byteLane 0 i = 0 := by
  simp [byteLane]

/-- One word: with a visitor that keeps `0`, the word loop's step visits the
    four cards of the word and reports each change under its own address. -/
theorem modifyWord_spec (hzero : visitor 0 = 0) (s : Scan) (word_cur : Nat) :
    (s.modifyWord visitor word_cur).mem =
        visitRange s.mem visitor word_cur (word_cur + kWordSize) ∧
      (s.modifyWord visitor word_cur).modified =
        s.modified ++ ownReports s.mem visitor word_cur (word_cur + kWordSize) := by
  have hload : ∀ {i}, i < 4 → byteLane (loadWord s.mem word_cur) i = s.mem (word_cur + i) :=
    fun hi => byteLane_loadWord s.mem word_cur hi
  -- the word the source builds from the visited lanes
  have hword : ∀ {i}, i < 4 →
      byteLane (((visitor (byteLane (loadWord s.mem word_cur) 0)).toUInt32 <<< 0) |||
        ((visitor (byteLane (loadWord s.mem word_cur) 1)).toUInt32 <<< 8) |||
        ((visitor (byteLane (loadWord s.mem word_cur) 2)).toUInt32 <<< 16) |||
        ((visitor (byteLane (loadWord s.mem word_cur) 3)).toUInt32 <<< 24)) i =
        visitor (s.mem (word_cur + i)) := by
    intro i hi
    show byteLane (ofBytes _ _ _ _) i = _
    rw [byteLane_ofBytes_fun (fun i => visitor (byteLane (loadWord s.mem word_cur) i)) hi,
      hload hi]
  -- a word all of whose lanes the visitor keeps is left as it is
  have hkeep : (∀ i, i < 4 → visitor (s.mem (word_cur + i)) = s.mem (word_cur + i)) →
      visitRange s.mem visitor word_cur (word_cur + kWordSize) = s.mem ∧
        ownReports s.mem visitor word_cur (word_cur + kWordSize) = [] := by
    intro hall
    have h : ∀ x, word_cur ≤ x → x < word_cur + kWordSize → visitor (s.mem x) = s.mem x := by
      intro x h1 h2
      have := hall (x - word_cur) (by unfold kWordSize at h2; omega)
      rwa [Nat.add_sub_cancel' h1] at this
    exact ⟨visitRange_of_unchanged visitor h, ownReports_of_unchanged visitor h⟩
  unfold Scan.modifyWord
  dsimp only
  split_ifs with hnz hsame
  · -- the visitor's word is the old one: every lane is kept
    have hall : ∀ i, i < 4 → visitor (s.mem (word_cur + i)) = s.mem (word_cur + i) := by
      intro i hi
      rw [← hword hi, ← hload hi]
      exact congrArg (byteLane · i) hsame
    obtain ⟨h1, h2⟩ := hkeep hall
    exact ⟨h1.symm, by rw [h2, List.append_nil]⟩
  · -- the word is stored: each lane takes the visitor's value
    refine ⟨?_, ?_⟩
    · funext x
      simp only [storeWord, visitRange]
      split
      · rename_i hx
        have := hword (i := x - word_cur) (by unfold kWordSize at hx; omega)
        rwa [Nat.add_sub_cancel' hx.1] at this
      · rfl
    · rw [ownReports_word visitor s.mem word_cur]
      dsimp only
      congr 1
      refine List.filterMap_congr fun i hi => ?_
      have hi' : i < 4 := List.mem_range.mp hi
      rw [hword hi', hload hi']
  · -- a zero word is skipped, and the visitor keeps its zero lanes
    have hall : ∀ i, i < 4 → visitor (s.mem (word_cur + i)) = s.mem (word_cur + i) := by
      intro i hi
      rw [← hload hi, not_not.mp hnz, byteLane_zero, hzero]
    obtain ⟨h1, h2⟩ := hkeep hall
    exact ⟨h1.symm, by rw [h2, List.append_nil]⟩

/-- The word loop, from a whole number of words below `word_end`, visits
    the cards from `word_cur` to `word_end`, each change reported under its
    own address. -/
theorem wordLoop_spec (hzero : visitor 0 = 0) (word_end : Nat) (s : Scan) (word_cur : Nat)
    (hdiv : (word_end - word_cur) % kWordSize = 0) :
    (wordLoop visitor word_end s word_cur).mem = visitRange s.mem visitor word_cur word_end ∧
      (wordLoop visitor word_end s word_cur).modified =
        s.modified ++ ownReports s.mem visitor word_cur word_end := by
  fun_induction wordLoop visitor word_end s word_cur with
  | case1 s word_cur hlt ih =>
      have hstep : word_cur + kWordSize ≤ word_end := by
        unfold kWordSize at *
        omega
      obtain ⟨h1, h2⟩ := ih (by unfold kWordSize at *; omega)
      obtain ⟨hm, hmod⟩ := modifyWord_spec visitor hzero s word_cur
      -- the words above this one still hold their old values
      have hrest : ownReports (s.modifyWord visitor word_cur).mem visitor (word_cur + kWordSize)
          word_end = ownReports s.mem visitor (word_cur + kWordSize) word_end := by
        refine ownReports_congr visitor fun x hx _ => ?_
        rw [hm]
        simp only [visitRange]
        rw [if_neg (by omega)]
      refine ⟨?_, ?_⟩
      · rw [h1, hm, visitRange_visitRange visitor s.mem (Nat.le_add_right _ _) hstep]
      · rw [h2, hrest, hmod, List.append_assoc,
          ownReports_append visitor s.mem (Nat.le_add_right _ _) hstep]
  | case2 s word_cur hge =>
      refine ⟨(visitRange_empty visitor s.mem (by omega)).symm, ?_⟩
      rw [ownReports_empty visitor s.mem (by omega)]
      exact (List.append_nil _).symm

/-! ### A tail of one card -/

/-- A card one past a word boundary follows the first card of that word. -/
theorem tail_card_first {e : Nat} (htail : e % kWordSize = 1) : e = (e - 1) + 1 ∧ (e - 1) % kWordSize = 0 := by
  have hk : kWordSize = 4 := rfl
  rw [hk] at htail ⊢
  omega

/-- A head or tail card that is the first of its word and that the visitor
    changes: the card gets the visitor's value and `modified` is called
    once, with `reported`. -/
theorem modifyCard_aligned (s : Scan) {card : Nat} (h : card % kWordSize = 0) (reported : Nat)
    (hchanged : s.mem card ≠ visitor (s.mem card)) :
    s.modifyCard visitor card reported =
      some ⟨Function.update s.mem card (visitor (s.mem card)),
        s.modified ++ [(reported, s.mem card, visitor (s.mem card))]⟩ := by
  simp only [Scan.modifyCard, casCard_aligned visitor h, Option.map_some, if_pos hchanged]

/-- A head that starts on a word boundary does nothing. -/
theorem headLoop_of_aligned (card_end : Nat) (s : Scan) {card_cur : Nat}
    (h : card_cur % kWordSize = 0) :
    headLoop visitor card_end s card_cur = some (s, card_cur) := by
  rw [headLoop, if_neg fun hc => hc.1 h]

/-- A tail of one card, the first of its word: it is changed and reported
    under `card_cur`. -/
theorem tailLoop_one_card (card_cur : Nat) (s : Scan) {card_end : Nat}
    (htail : card_end % kWordSize = 1) (hlt : card_cur < card_end)
    (hchanged : s.mem (card_end - 1) ≠ visitor (s.mem (card_end - 1))) :
    tailLoop visitor card_cur s card_end =
      some (⟨Function.update s.mem (card_end - 1) (visitor (s.mem (card_end - 1))),
        s.modified ++ [(card_cur, s.mem (card_end - 1), visitor (s.mem (card_end - 1)))]⟩,
        card_end - 1) := by
  have hunaligned : card_end % kWordSize ≠ 0 := by
    rw [htail]
    decide
  have hfirst := (tail_card_first htail).2
  rw [tailLoop, if_pos ⟨hunaligned, hlt⟩, modifyCard_aligned visitor s hfirst _ hchanged,
    Option.bind_some, tailLoop, if_neg fun hc => hc.1 hfirst]

/-- A range from a word boundary `card_cur` to one card `c` past another,
    where the visitor changes `c`: every compare-and-swap succeeds, every
    card of the range gets the visitor's value, and the calls of `modified`
    are the tail's, under `card_cur`, then the words' under their own
    cards. -/
theorem modifyCardsAtomic_one_tail (hzero : visitor 0 = 0) (t : CardTable)
    (scan_begin scan_end : Nat) {card_cur c : Nat} (hcur : t.cardFromAddr scan_begin = card_cur)
    (hend : t.cardFromAddr scan_end = c + 1) (hhead : card_cur % kWordSize = 0)
    (htail : c % kWordSize = 0) (hle : card_cur ≤ c) (hchanged : t.mem c ≠ visitor (t.mem c)) :
    ∃ s, t.modifyCardsAtomic scan_begin scan_end visitor = some s ∧
      s.mem = visitRange t.mem visitor card_cur (c + 1) ∧
      s.modified = (card_cur, t.mem c, visitor (t.mem c)) :: ownReports t.mem visitor card_cur c := by
  have hk : kWordSize = 4 := rfl
  have htail' : (c + 1) % kWordSize = 1 := by
    rw [hk] at htail ⊢
    omega
  have hdiv : (c - card_cur) % kWordSize = 0 := by
    rw [hk] at hhead htail ⊢
    omega
  -- the head is empty and the tail is the card `c`; the words lie below it
  have hphases : t.modifyCardsAtomic scan_begin scan_end visitor =
      some (wordLoop visitor c ⟨Function.update t.mem c (visitor (t.mem c)),
        [(card_cur, t.mem c, visitor (t.mem c))]⟩ card_cur) := by
    have htl := tailLoop_one_card visitor card_cur ⟨t.mem, []⟩ htail' (by omega) hchanged
    simp only [Nat.add_sub_cancel, List.nil_append] at htl
    simp only [CardTable.modifyCardsAtomic, hcur, hend, headLoop_of_aligned visitor _ _ hhead,
      Option.bind_eq_bind, Option.bind_some, htl, Option.pure_def]
  obtain ⟨hmem, hmod⟩ := wordLoop_spec visitor hzero c _ card_cur hdiv
  refine ⟨_, hphases, hmem.trans ?_, hmod.trans ?_⟩
  · funext x
    simp only [visitRange]
    by_cases hx : x = c
    · subst hx
      rw [if_neg (by omega), if_pos (by omega), Function.update_self]
    · rw [Function.update_of_ne hx]
      split_ifs <;> first | rfl | omega
  · -- the words read cards below `c`, which the tail left as they were
    rw [ownReports_congr visitor fun x _ hx => Function.update_of_ne (by omega) _ _,
      List.singleton_append]

/-- The calls of `modified` over such a range name cards below the tail
    card `c`: the tail's names the first card, the words' their own. -/
theorem lt_of_mem_tail_reports {m : Nat → UInt8} {card_cur c : Nat} (hlt : card_cur < c)
    {r : Nat × UInt8 × UInt8} (hr : r ∈ (card_cur, m c, visitor (m c)) :: ownReports m visitor card_cur c) :
    r.1 < c := by
  rcases List.mem_cons.mp hr with rfl | hr
  · exact hlt
  · exact ((mem_ownReports visitor).mp hr).2.1

/-- `CardTable::ModifyCardsAtomic` with a visitor that keeps clean cards
    clean, over a range from a word boundary to one card past a later one:
    every card of the range gets the visitor's value, but the tail card,
    which the visitor changes, is reported under the first card of the
    range and never under its own address. -/
theorem modifyCardsAtomic_tail_card_address (t : CardTable) (scan_begin scan_end : Nat)
    (visitor : UInt8 → UInt8) (hzero : visitor 0 = 0)
    (hhead : t.cardFromAddr scan_begin % kWordSize = 0)
    (htail : t.cardFromAddr scan_end % kWordSize = 1)
    (hlt : t.cardFromAddr scan_begin + 1 < t.cardFromAddr scan_end)
    (hchanged : visitor (t.mem (t.cardFromAddr scan_end - 1)) ≠ t.mem (t.cardFromAddr scan_end - 1)) :
    ∃ s, t.modifyCardsAtomic scan_begin scan_end visitor = some s ∧
      s.mem = visitRange t.mem visitor (t.cardFromAddr scan_begin) (t.cardFromAddr scan_end) ∧
      (t.cardFromAddr scan_begin, t.mem (t.cardFromAddr scan_end - 1),
        visitor (t.mem (t.cardFromAddr scan_end - 1))) ∈ s.modified ∧
      ∀ r ∈ s.modified, r.1 ≠ t.cardFromAddr scan_end - 1 := by
  obtain ⟨hend, hfirst⟩ := tail_card_first htail
  obtain ⟨s, hs, hmem, hmod⟩ := modifyCardsAtomic_one_tail visitor hzero t scan_begin scan_end rfl
    hend hhead hfirst (by omega) (Ne.symm hchanged)
  refine ⟨s, hs, by rw [hmem, ← hend], by simp [hmod], fun r hr => ?_⟩
  rw [hmod] at hr
  exact Nat.ne_of_lt (lt_of_mem_tail_reports visitor (by omega) hr)

/-- Five dirty cards from a word boundary: the head is empty, cards `0 .. 3`
    are one word, and card `4`, the first of the next, is the tail; it is
    aged but reported as card `0`. -/
def fiveDirtyCards : CardTable := ⟨0, fun _ => kCardDirty⟩

theorem modifyCardsAtomic_tail_card_address_five :
    ageCardVisitor 0 = 0 ∧ fiveDirtyCards.cardFromAddr 0 % kWordSize = 0 ∧
      fiveDirtyCards.cardFromAddr 640 % kWordSize = 1 ∧
      fiveDirtyCards.cardFromAddr 0 + 1 < fiveDirtyCards.cardFromAddr 640 ∧
      ageCardVisitor (fiveDirtyCards.mem 4) ≠ fiveDirtyCards.mem 4 ∧
      ∃ s, fiveDirtyCards.modifyCardsAtomic 0 640 ageCardVisitor = some s ∧
        s.mem = visitRange fiveDirtyCards.mem ageCardVisitor 0 5 ∧
        (0, kCardDirty, kCardDirty - 1) ∈ s.modified ∧ ∀ r ∈ s.modified, r.1 ≠ 4 :=
  ⟨by decide, by decide, by decide, by decide, by decide,
    modifyCardsAtomic_tail_card_address fiveDirtyCards 0 640 ageCardVisitor (by decide) (by decide)
      (by decide) (by decide) (by decide)⟩

/-- `ModUnionTableReferenceCache::ClearCards` over such a range ages a dirty
    tail card without recording it among the cleared cards it will
    rescan. -/
theorem clearCards_misses_tail_card (t : CardTable) (space_begin space_end : Nat)
    (hhead : t.cardFromAddr space_begin % kWordSize = 0)
    (htail : t.cardFromAddr space_end % kWordSize = 1)
    (hlt : t.cardFromAddr space_begin + 1 < t.cardFromAddr space_end)
    (hdirty : t.mem (t.cardFromAddr space_end - 1) = kCardDirty) :
    ∃ s, t.modifyCardsAtomic space_begin space_end ageCardVisitor = some s ∧
      s.mem (t.cardFromAddr space_end - 1) = kCardDirty - 1 ∧
      t.cardFromAddr space_end - 1 ∉ (clearCards t space_begin space_end).getD [] := by
  obtain ⟨hend, hfirst⟩ := tail_card_first htail
  obtain ⟨s, hs, hmem, hmod⟩ := modifyCardsAtomic_one_tail ageCardVisitor (by decide) t space_begin
    space_end rfl hend hhead hfirst (by omega) (by rw [hdirty]; decide)
  refine ⟨s, hs, ?_, fun hc => ?_⟩
  · rw [hmem]
    simp only [visitRange]
    rw [if_pos (by omega), hdirty]
    rfl
  · -- a recorded card is the pointer of some call of `modified`
    simp only [clearCards, hs, Option.map_some, Option.getD_some] at hc
    obtain ⟨⟨card, expected, new⟩, hr, hsome⟩ := List.mem_filterMap.mp hc
    have hcard : card = t.cardFromAddr space_end - 1 := by
      dsimp only at hsome
      split at hsome
      · exact Option.some.inj hsome
      · cases hsome
    rw [hmod] at hr
    have := lt_of_mem_tail_reports ageCardVisitor (by omega) hr
    dsimp only at this
    omega

end Gc

end ArtRuntime
