import ArtRuntime.Gc.CardTable

/-!
# Scanning the Card Table, and the Byte Compare-and-Swap off a Word Boundary

Two more uses of card_table-inl.h's memory of cards: `byte_cas` on a card
that is not the first of its word, and `CardTable::Scan`.

`byte_cas(old_value, new_value, address)` shifts its byte masks by the
card's offset in its word as if that offset were a count of bits. On any
card but the first of a word it compares and replaces bits `k` to `k + 7`
of the word, which straddle two cards: it fails when the card holds the
expected value, and when those bits happen to match it rewrites the
neighbouring card (`byteCas_misses_unaligned_card`).

`CardTable::Scan(bitmap, scan_begin, scan_end, visitor, minimum_age)` passes
the heap range of every card of age at least `minimum_age` to
`VisitMarkedRange`, and counts them. It scans the unaligned cards at the
start one at a time, then whole words, skipping those that are zero, then
the cards from the rounded-down end one at a time. Each phase scans exactly
its own cards (`scan_phases`). The tail, though, starts at the rounded-down
end whatever the head did: when the range starts on an unaligned card and no
word boundary lies inside it, the head scans the whole range and the tail
scans it again together with the cards before it in the same word
(`scan_revisits_cards`). When a word boundary lies inside the range, or the
range starts on one, the phases meet and `Scan` is the plain scan
(`scan_eq_agedCards`).

## Main definitions

* `CardTable.addrFromCard`: `CardTable::AddrFromCard`.
* `headEnd`: Where a head loop stops.
* `scanHead`, `scanWordCards`, `scanWords`, `scanTail`, `CardTable.scan`:
  `CardTable::Scan` and its loops.
* `agedCards`: The cards of a range the plain scan visits.

## Theorems

* `byteCas_misses_unaligned_card`: Four dirty cards from a word boundary:
  `byte_cas` on the second fails though the card holds the expected value,
  so the loop never ends; on other bytes it succeeds and rewrites the first.
* `scanHead_spec`, `scanWords_spec`, `scanTail_spec`: What each loop scans.
* `scan_phases`: `Scan` is the three phases, each over its own cards.
* `scan_eq_agedCards`: With a word boundary in the range, `Scan` is the
  plain scan.
* `scan_revisits_cards`: Two dirty cards inside one word are scanned twice,
  and a card outside the range once.
-/

namespace ArtRuntime

namespace Gc

open MachineWord

/-- Four dirty cards from a word boundary. -/
def fourDirtyCards : Nat → UInt8 := fun _ => kCardDirty

/-- A word whose first card is `0xe0` and whose second card is dirty. -/
def straddledCards : Nat → UInt8 := fun a => if a = 0 then 0xe0 else kCardDirty

theorem byteCas_misses_unaligned_card :
    fourDirtyCards 1 = kCardDirty ∧
      (byteCas fourDirtyCards kCardDirty (ageCardVisitor kCardDirty) 1).1 = false ∧
      (∀ fuel, casCard ageCardVisitor 1 fuel fourDirtyCards = none) ∧
      (byteCas straddledCards kCardDirty (ageCardVisitor kCardDirty) 1).1 = true ∧
      (byteCas straddledCards kCardDirty (ageCardVisitor kCardDirty) 1).2 1 = kCardDirty ∧
      (byteCas straddledCards kCardDirty (ageCardVisitor kCardDirty) 1).2 0 = 0xde := by
  have hfail : (byteCas fourDirtyCards kCardDirty (ageCardVisitor kCardDirty) 1).1 = false := by
    decide
  refine ⟨rfl, hfail, fun fuel => ?_, by decide, by decide, by decide⟩
  exact casCard_never_ends ageCardVisitor 1 fourDirtyCards (by decide) hfail fuel

/-! ### `CardTable::Scan` -/

/-- `kCardSize`. -/
def kCardSize : Nat := 2 ^ kCardShift

/-- `CardTable::AddrFromCard`. -/
def CardTable.addrFromCard (t : CardTable) (card_addr : Nat) : Nat :=
  (card_addr - t.biased_begin) <<< kCardShift

/-- What `Scan` has done: the start of each range passed to
    `VisitMarkedRange` (each `kCardSize` long), and `cards_scanned`. -/
structure ScanLog where
  visited : List Nat
  cards_scanned : Nat
  deriving DecidableEq

/-- A card of the head or tail loop, visited when its age is at least
    `minimum_age`. -/
def ScanLog.visitCard (l : ScanLog) (t : CardTable) (minimum_age : UInt8) (card_cur : Nat) :
    ScanLog :=
  if t.mem card_cur ≥ minimum_age then ⟨l.visited ++ [t.addrFromCard card_cur], l.cards_scanned + 1⟩
  else l

/-- "Handle any unaligned cards at the start." -/
def scanHead (t : CardTable) (minimum_age : UInt8) (card_end : Nat) (l : ScanLog) (card_cur : Nat) :
    ScanLog × Nat :=
  if card_cur % kWordSize ≠ 0 ∧ card_cur < card_end then
    scanHead t minimum_age card_end (l.visitCard t minimum_age card_cur) (card_cur + 1)
  else (l, card_cur)
termination_by card_end - card_cur

/-- The loop over the `i` cards left of a word: the low byte of `start_word`
    is the card's age, and `start` its range. -/
def scanWordCards (minimum_age : UInt8) (l : ScanLog) (start_word : UInt32) (start : Nat) :
    Nat → ScanLog
  | 0 => l
  | i + 1 =>
    let l := if start_word.toUInt8 ≥ minimum_age then ⟨l.visited ++ [start], l.cards_scanned + 1⟩
      else l
    scanWordCards minimum_age l (start_word >>> 8) (start + kCardSize) i

/-- The loop over the words from `word_cur` to `word_end`. A zero word is
    skipped by the inner `while`, which leaves both loops (`goto exit_for`)
    when it passes the last word. -/
def scanWords (t : CardTable) (minimum_age : UInt8) (word_end : Nat) (l : ScanLog)
    (word_cur : Nat) : ScanLog :=
  if word_cur < word_end then
    if loadWord t.mem word_cur = 0 then
      if word_cur + kWordSize ≥ word_end then l
      else scanWords t minimum_age word_end l (word_cur + kWordSize)
    else
      scanWords t minimum_age word_end
        (scanWordCards minimum_age l (loadWord t.mem word_cur) (t.addrFromCard word_cur) kWordSize)
        (word_cur + kWordSize)
  else l
termination_by word_end - word_cur
decreasing_by
  all_goals simp only [kWordSize]
  all_goals omega

/-- "Handle any unaligned cards at the end", from `card_cur` on. -/
def scanTail (t : CardTable) (minimum_age : UInt8) (card_end : Nat) (l : ScanLog) (card_cur : Nat) :
    ScanLog :=
  if card_cur < card_end then
    scanTail t minimum_age card_end (l.visitCard t minimum_age card_cur) (card_cur + 1)
  else l
termination_by card_end - card_cur

/-- `CardTable::Scan` over the cards of `[scan_begin, scan_end)`. The tail
    starts at `word_end`, wherever the head stopped. -/
def CardTable.scan (t : CardTable) (scan_begin scan_end : Nat) (minimum_age : UInt8) : ScanLog :=
  let card_cur := t.cardFromAddr scan_begin
  let card_end := t.cardFromAddr scan_end
  let (l, card_cur) := scanHead t minimum_age card_end ⟨[], 0⟩ card_cur
  let aligned_end := card_end - card_end % kWordSize
  let word_end := aligned_end
  let l := scanWords t minimum_age word_end l card_cur
  scanTail t minimum_age card_end l word_end

/-- The cards of `[lo, hi)` of age at least `minimum_age`, in order: those a
    plain scan visits. -/
def agedCards (t : CardTable) (minimum_age : UInt8) (lo hi : Nat) : List Nat :=
  (List.range' lo (hi - lo)).filter fun c => t.mem c ≥ minimum_age

/-- The log after visiting `cards` one after another. -/
def ScanLog.append (l : ScanLog) (t : CardTable) (cards : List Nat) : ScanLog :=
  ⟨l.visited ++ cards.map t.addrFromCard, l.cards_scanned + cards.length⟩

section Scan

variable (t : CardTable) (minimum_age : UInt8)

theorem agedCards_append {lo mid hi : Nat} (h1 : lo ≤ mid) (h2 : mid ≤ hi) :
    agedCards t minimum_age lo mid ++ agedCards t minimum_age mid hi =
      agedCards t minimum_age lo hi := by
  unfold agedCards
  rw [← List.filter_append, show hi - lo = (mid - lo) + (hi - mid) by omega, ← List.range'_append_1,
    show lo + (mid - lo) = mid by omega]

theorem agedCards_empty {lo hi : Nat} (h : hi ≤ lo) : agedCards t minimum_age lo hi = [] := by
  rw [agedCards, Nat.sub_eq_zero_of_le h, List.range'_zero, List.filter_nil]

theorem agedCards_succ {lo hi : Nat} (h : lo < hi) :
    agedCards t minimum_age lo hi =
      (if t.mem lo ≥ minimum_age then [lo] else []) ++ agedCards t minimum_age (lo + 1) hi := by
  rw [← agedCards_append t minimum_age (Nat.le_succ lo) h]
  congr 1
  rw [agedCards, show lo + 1 - lo = 1 by omega, List.range'_one, List.filter_cons, List.filter_nil]
  by_cases hc : t.mem lo ≥ minimum_age
  · rw [if_pos (decide_eq_true hc), if_pos hc]
  · rw [if_neg (fun h => hc (of_decide_eq_true h)), if_neg hc]

/-- No card of a zero word is visited. -/
theorem agedCards_zero_word (hmin : 0 < minimum_age) {a : Nat} (hw : loadWord t.mem a = 0) :
    agedCards t minimum_age a (a + kWordSize) = [] := by
  refine List.filter_eq_nil_iff.mpr fun c hc hge => ?_
  rw [List.mem_range'_1] at hc
  have hzero : t.mem c = 0 := by
    rw [show c = a + (c - a) by omega, ← byteLane_loadWord t.mem a (i := c - a) (by
      simp only [kWordSize] at hc
      omega), hw, byteLane_zero]
  rw [hzero, decide_eq_true_eq] at hge
  exact absurd (lt_of_lt_of_le hmin hge) (lt_irrefl 0)

theorem ScanLog.append_append (l : ScanLog) (a b : List Nat) :
    (l.append t a).append t b = l.append t (a ++ b) := by
  simp only [ScanLog.append, List.map_append, List.append_assoc, List.length_append, Nat.add_assoc]

theorem ScanLog.append_nil (l : ScanLog) : l.append t [] = l := by
  simp only [ScanLog.append, List.map_nil, List.append_nil, List.length_nil, Nat.add_zero]

theorem ScanLog.visitCard_eq (l : ScanLog) (card : Nat) :
    l.visitCard t minimum_age card = l.append t (if t.mem card ≥ minimum_age then [card] else []) := by
  unfold ScanLog.visitCard
  split
  · rfl
  · exact (ScanLog.append_nil t l).symm

theorem addrFromCard_succ {card : Nat} (h : t.biased_begin ≤ card) :
    t.addrFromCard card + kCardSize = t.addrFromCard (card + 1) := by
  simp only [CardTable.addrFromCard, Nat.shiftLeft_eq, kCardSize]
  rw [show card + 1 - t.biased_begin = card - t.biased_begin + 1 by omega, Nat.add_mul, Nat.one_mul]

/-- Where the head loop stops: the first word boundary at or after
    `card_cur`, or `card_end` if that comes first. -/
def headEnd (card_cur card_end : Nat) : Nat :=
  if card_end ≤ card_cur then card_cur
  else min card_end ((card_cur + kWordSize - 1) / kWordSize * kWordSize)

/-- A round of a head loop leaves the place where it stops as it was. -/
theorem headEnd_succ {card_cur card_end : Nat} (h : card_cur % kWordSize ≠ 0 ∧ card_cur < card_end) :
    headEnd (card_cur + 1) card_end = headEnd card_cur card_end := by
  unfold headEnd kWordSize at *
  split <;> split <;> omega

theorem lt_headEnd {card_cur card_end : Nat} (h : card_cur % kWordSize ≠ 0 ∧ card_cur < card_end) :
    card_cur < headEnd card_cur card_end := by
  unfold headEnd kWordSize at *
  split <;> omega

/-- A head loop stops at once on an aligned card or at the end. -/
theorem headEnd_of_not {card_cur card_end : Nat}
    (h : ¬ (card_cur % kWordSize ≠ 0 ∧ card_cur < card_end)) :
    headEnd card_cur card_end = card_cur := by
  unfold headEnd kWordSize at *
  split <;> omega

/-- The head loop scans the cards from `card_cur` up to `headEnd`. -/
theorem scanHead_spec (card_end : Nat) (l : ScanLog) (card_cur : Nat) :
    scanHead t minimum_age card_end l card_cur =
      (l.append t (agedCards t minimum_age card_cur (headEnd card_cur card_end)),
        headEnd card_cur card_end) := by
  fun_induction scanHead t minimum_age card_end l card_cur with
  | case1 l card_cur hcond ih =>
    rw [ih, headEnd_succ hcond, ScanLog.visitCard_eq, ScanLog.append_append,
      ← agedCards_succ t minimum_age (lt_headEnd hcond)]
  | case2 l card_cur hcond =>
    rw [headEnd_of_not hcond, agedCards_empty t minimum_age (le_refl _), ScanLog.append_nil]

/-- The tail loop scans the cards from `card_cur` to `card_end`. -/
theorem scanTail_spec (card_end : Nat) (l : ScanLog) (card_cur : Nat) :
    scanTail t minimum_age card_end l card_cur =
      l.append t (agedCards t minimum_age card_cur card_end) := by
  fun_induction scanTail t minimum_age card_end l card_cur with
  | case1 l card_cur hlt ih =>
    rw [ih, ScanLog.visitCard_eq, ScanLog.append_append, ← agedCards_succ t minimum_age hlt]
  | case2 l card_cur hge =>
    rw [agedCards_empty t minimum_age (by omega), ScanLog.append_nil]

/-- The loop over the cards of a word: the low byte of `start_word` is card
    `a + j`, the next byte card `a + j + 1`, and so on up to the word's end. -/
theorem scanWordCards_spec (a : Nat) (hbb : t.biased_begin ≤ a) (i j : Nat) (hij : j + i = kWordSize)
    (l : ScanLog) (start_word : UInt32)
    (hw : ∀ k, k < i → start_word.toNat / 2 ^ (8 * k) % 2 ^ 8 = (t.mem (a + j + k)).toNat) :
    scanWordCards minimum_age l start_word (t.addrFromCard (a + j)) i =
      l.append t (agedCards t minimum_age (a + j) (a + kWordSize)) := by
  induction i generalizing j l start_word with
  | zero =>
    rw [scanWordCards, agedCards_empty t minimum_age (by omega), ScanLog.append_nil]
  | succ i ih =>
    -- the low byte is this card, and the word shifted right by a byte holds the rest
    have hlow : start_word.toUInt8 = t.mem (a + j) := by
      apply UInt8.toNat_inj.mp
      rw [UInt32.toNat_toUInt8]
      simpa using hw 0 (Nat.zero_lt_succ i)
    have hrest : ∀ k, k < i →
        (start_word >>> 8).toNat / 2 ^ (8 * k) % 2 ^ 8 = (t.mem (a + (j + 1) + k)).toNat := by
      intro k hk
      rw [UInt32.toNat_shiftRight, show (8 : UInt32).toNat % 32 = 8 from rfl,
        Nat.shiftRight_eq_div_pow, Nat.div_div_eq_div_mul, ← Nat.pow_add,
        show 8 + 8 * k = 8 * (k + 1) by omega, hw (k + 1) (by omega),
        show a + j + (k + 1) = a + (j + 1) + k by omega]
    rw [scanWordCards, hlow, addrFromCard_succ t (by omega), Nat.add_assoc a j 1,
      ih (j + 1) (by omega) _ _ hrest, @agedCards_succ t minimum_age (a + j) _ (by omega)]
    split
    · -- this card is visited: one more range and one more card
      show (l.append t [a + j]).append t _ = _
      rw [ScanLog.append_append, ← Nat.add_assoc]
    · rw [List.nil_append, ← Nat.add_assoc]

/-- A word that is not zero: its four cards, in address order. -/
theorem scanWordCards_loadWord (l : ScanLog) {a : Nat} (hbb : t.biased_begin ≤ a) :
    scanWordCards minimum_age l (loadWord t.mem a) (t.addrFromCard a) kWordSize =
      l.append t (agedCards t minimum_age a (a + kWordSize)) := by
  have h := scanWordCards_spec t minimum_age a hbb kWordSize 0 (Nat.zero_add _) l (loadWord t.mem a)
    (fun k hk => by
      rw [← toNat_byteLane _ _ (by simpa [kWordSize] using hk), byteLane_loadWord _ _
        (by simpa [kWordSize] using hk), Nat.add_zero])
  rwa [Nat.add_zero] at h

/-- The word loop scans the cards from `word_cur` to `word_end`, when these
    are whole words apart; skipping a zero word skips no card of age at
    least `minimum_age`. -/
theorem scanWords_spec (hmin : 0 < minimum_age) (word_end : Nat) (l : ScanLog) (word_cur : Nat)
    (hbb : t.biased_begin ≤ word_cur) (hal : (word_end - word_cur) % kWordSize = 0) :
    scanWords t minimum_age word_end l word_cur =
      l.append t (agedCards t minimum_age word_cur word_end) := by
  have hk : kWordSize = 4 := rfl
  revert hbb hal
  fun_induction scanWords t minimum_age word_end l word_cur with
  | case1 l word_cur hlt hzero hlast =>
    intro hbb hal
    rw [hk] at hal
    -- the last word is zero: the loop leaves
    rw [show word_end = word_cur + kWordSize by omega, agedCards_zero_word t minimum_age hmin hzero,
      ScanLog.append_nil]
  | case2 l word_cur hlt hzero hmore ih =>
    intro hbb hal
    rw [hk] at hal
    rw [ih (by omega) (by rw [hk]; omega),
      ← @agedCards_append t minimum_age word_cur (word_cur + kWordSize) word_end (by omega)
        (by omega), agedCards_zero_word t minimum_age hmin hzero, List.nil_append]
  | case3 l word_cur hlt hzero ih =>
    intro hbb hal
    rw [hk] at hal
    rw [ih (by omega) (by rw [hk]; omega), scanWordCards_loadWord t minimum_age l hbb,
      ScanLog.append_append, agedCards_append t minimum_age (by omega) (by omega)]
  | case4 l word_cur hge =>
    intro _ _
    rw [agedCards_empty t minimum_age (by omega), ScanLog.append_nil]

theorem le_cardFromAddr (addr : Nat) : t.biased_begin ≤ t.cardFromAddr addr :=
  Nat.le_add_right _ _

/-- `Scan` is its three phases: the head up to `headEnd`, the words from
    there to the rounded-down end, and the tail from the rounded-down end. -/
theorem scan_phases (hmin : 0 < minimum_age) (scan_begin scan_end : Nat) :
    t.scan scan_begin scan_end minimum_age =
      (⟨[], 0⟩ : ScanLog).append t
        (agedCards t minimum_age (t.cardFromAddr scan_begin)
            (headEnd (t.cardFromAddr scan_begin) (t.cardFromAddr scan_end)) ++
          agedCards t minimum_age (headEnd (t.cardFromAddr scan_begin) (t.cardFromAddr scan_end))
            (t.cardFromAddr scan_end - t.cardFromAddr scan_end % kWordSize) ++
          agedCards t minimum_age (t.cardFromAddr scan_end - t.cardFromAddr scan_end % kWordSize)
            (t.cardFromAddr scan_end)) := by
  have hbb := le_cardFromAddr t scan_begin
  simp only [CardTable.scan, scanHead_spec]
  generalize t.cardFromAddr scan_begin = card_begin at hbb ⊢
  generalize t.cardFromAddr scan_end = card_end
  -- the head stops on a word boundary unless it reaches the end first
  have hal : (card_end - card_end % kWordSize - headEnd card_begin card_end) % kWordSize = 0 := by
    unfold headEnd kWordSize
    split <;> omega
  have hhead : card_begin ≤ headEnd card_begin card_end := by
    unfold headEnd kWordSize
    split <;> omega
  rw [scanWords_spec t minimum_age hmin _ _ _ (by omega) hal, scanTail_spec, ScanLog.append_append,
    ScanLog.append_append, List.append_assoc]

/-- With a word boundary at or after the first card and at or before the
    rounded-down end, the phases meet and `Scan` is the plain scan. -/
theorem scan_eq_agedCards (hmin : 0 < minimum_age) (scan_begin scan_end : Nat)
    (hword : t.cardFromAddr scan_begin ≤
      t.cardFromAddr scan_end - t.cardFromAddr scan_end % kWordSize) :
    t.scan scan_begin scan_end minimum_age =
      (⟨[], 0⟩ : ScanLog).append t
        (agedCards t minimum_age (t.cardFromAddr scan_begin) (t.cardFromAddr scan_end)) := by
  have hk : kWordSize = 4 := rfl
  rw [scan_phases t minimum_age hmin]
  generalize t.cardFromAddr scan_begin = card_begin at hword ⊢
  generalize t.cardFromAddr scan_end = card_end at hword ⊢
  have h1 : card_begin ≤ headEnd card_begin card_end := by
    unfold headEnd kWordSize
    split <;> omega
  have h2 : headEnd card_begin card_end ≤ card_end - card_end % kWordSize := by
    unfold headEnd kWordSize at *
    split <;> omega
  rw [agedCards_append t minimum_age h1 h2, agedCards_append t minimum_age (h1.trans h2) (by omega)]

end Scan

/-- Cards that are all dirty. -/
def dirtyCards : CardTable := ⟨0, fun _ => kCardDirty⟩

theorem scan_revisits_cards :
    (dirtyCards.scan 640 896 1).visited = [640, 768, 512, 640, 768] ∧
      (dirtyCards.scan 640 896 1).cards_scanned = 5 ∧
      (agedCards dirtyCards 1 (dirtyCards.cardFromAddr 640) (dirtyCards.cardFromAddr 896)).map
        dirtyCards.addrFromCard = [640, 768] := by
  rw [scan_phases dirtyCards 1 (by decide)]
  decide

end Gc

end ArtRuntime
