import Mathlib.Algebra.Order.BigOperators.Group.Finset
import ArtRuntime.Core.Reach
import ArtRuntime.Gc.SpaceBitmap

/-!
# Concurrent Marking with AtomicTestAndSet

`SpaceBitmap::AtomicTestAndSet` (and `BaseBitmap::AtomicTestAndSet`, the same
text) sets the bit of an object and returns whether it was already set:

    do {
      old_word = *address;
      if ((old_word & mask) != 0) return true;   // fast path
    } while (android_atomic_cas(old_word, old_word | mask, address) != 0);
    return false;

Here any number of calls run at once, each on an object of its own choosing,
two of them possibly on one object or on objects of one word. Each read of
the word and each compare-and-swap is one atomic step; the steps of the calls
interleave in every order.

A compare-and-swap succeeds only on the word it read, so it only ever adds
its own bit to what is there, and it fails only when another call's swap has
added a bit since the read. Words therefore only gain bits, each swap adds a
bit that was clear, and the bit of an object is set by exactly one swap: the
call that made it returns false, and every other call on the object sees the
bit set, at once or after its swap fails, and returns true (`MarkingInv`).

Every call ends: a failed swap is paid for by a bit another call has added
to the word since, so the clear bits of the words a call looks at, counted
twice, and one more for each read still to come, go down at every step
(`potential`). Every run is at most 66 steps per call long.

## Main definitions

* `TestAndSetPc`, `MarkingState`: Where each call is, and the bitmap.
* `testAndSetNext`, `testAndSetSystem`: One atomic step of a call, and the
  calls started together on a bitmap.
* `MarkingInv`: What every interleaving keeps.
* `potential`: What every step lowers.
* `MarkingOutcome`: What the calls promise once all have returned.

## Theorems

* `testAndSetNext_cases`: The four things a step can do.
* `markingInv_reach`: Every reachable state keeps the invariant.
* `potential_step_lt`: Every step lowers the potential.
* `atomicTestAndSet_concurrent`: Every run is short, no call is stuck, and
  when all have returned each object's bit is set, every other bit is as it
  was, and each object whose bit was clear has exactly one call that
  returned false.
-/

namespace ArtRuntime

namespace Gc

open TransitionSystem WordBits SpaceBitmap

namespace SpaceBitmap

/-- `*address = w` for the word at `index`. -/
def setWord (b : SpaceBitmap) (index : Nat) (w : UInt32) : SpaceBitmap :=
  { b with bitmap := b.bitmap.set index w }

/-- The bit index of an object. -/
def objBit (b : SpaceBitmap) (o : Nat) : Nat := (o - b.heapBegin) / kAlignment

theorem word_setWord {b : SpaceBitmap} {index : Nat} (w : UInt32) (h : index < b.bitmap.length)
    (i : Nat) : (b.setWord index w).word i = if i = index then w else b.word i := by
  unfold setWord word
  by_cases hi : i = index
  · subst hi
    rw [if_pos rfl, List.getD_eq_getElem?_getD, List.getElem?_set_self h, Option.getD_some]
  · rw [if_neg hi, List.getD_eq_getElem?_getD, List.getElem?_set_ne (Ne.symm hi),
      ← List.getD_eq_getElem?_getD]

end SpaceBitmap

/-- Where a call of AtomicTestAndSet is. -/
inductive TestAndSetPc
  /-- At the top of the loop, about to read the word. -/
  | read
  /-- Read `old_word`, in which the bit is clear; about to swap it. -/
  | cas (old_word : UInt32)
  /-- Returned `marked`: whether the bit was set before. -/
  | done (marked : Bool)
  deriving DecidableEq

/-- The bitmap and where each call is. -/
structure MarkingState (τ : Type) where
  bitmap : SpaceBitmap
  pc : τ → TestAndSetPc

variable {τ : Type}

/-- A call moves on, the bitmap unchanged. -/
def MarkingState.setPc [DecidableEq τ] (s : MarkingState τ) (t : τ) (p : TestAndSetPc) :
    MarkingState τ :=
  { s with pc := Function.update s.pc t p }

/-- One atomic step of call `t` on the object `obj t`: the read of the word
    at the top of the loop, with the fast path, or the android_atomic_cas,
    which swaps in `old_word | mask` when the word is still `old_word`. A call
    that has returned takes no step. -/
def testAndSetNext [DecidableEq τ] (obj : τ → Nat) (s : MarkingState τ) (t : τ) : Option (MarkingState τ) :=
  let offset := obj t - s.bitmap.heapBegin
  let index := offsetToIndex offset
  let mask := offsetToMask offset
  match s.pc t with
  | .read =>
    let old_word := s.bitmap.word index
    if old_word &&& mask ≠ 0 then some (s.setPc t (.done true))
    else some (s.setPc t (.cas old_word))
  | .cas old_word =>
    if s.bitmap.word index = old_word then
      some ⟨s.bitmap.setWord index (old_word ||| mask), Function.update s.pc t (.done false)⟩
    else some (s.setPc t .read)
  | .done _ => none

/-- Calls on the objects `obj`, all started on the bitmap `b`, their steps
    interleaved in every order. -/
def testAndSetSystem [DecidableEq τ] (b : SpaceBitmap) (obj : τ → Nat) : System (MarkingState τ) τ :=
  System.ofFun (fun s => s.bitmap = b ∧ ∀ t, s.pc t = .read) fun t s => testAndSetNext obj s t

/-- The objects are heap-aligned and covered by the bitmap. -/
def Covered (b : SpaceBitmap) (obj : τ → Nat) : Prop :=
  ∀ t, b.heapBegin ≤ obj t ∧ (obj t - b.heapBegin) % kAlignment = 0 ∧ obj t < b.heapLimit

section Step

variable {b : SpaceBitmap} {obj : τ → Nat}

theorem Covered.offset_eq (hcov : Covered b obj) (t : τ) :
    obj t - b.heapBegin = objBit b (obj t) * kAlignment := by
  have := hcov t
  unfold objBit kAlignment at *
  omega

theorem Covered.addr_eq (hcov : Covered b obj) (t : τ) :
    obj t = b.heapBegin + objBit b (obj t) * kAlignment := by
  have := hcov.offset_eq t
  have := (hcov t).1
  omega

theorem Covered.index_lt (hcov : Covered b obj) (t : τ) : objBit b (obj t) / 32 < b.bitmap.length := by
  have := hcov t
  unfold objBit heapLimit indexToOffset kAlignment kBitsPerWord at *
  omega

/-- Two objects with one bit are one object. -/
theorem Covered.obj_eq_of_objBit_eq (hcov : Covered b obj) {t u : τ}
    (h : objBit b (obj t) = objBit b (obj u)) : obj t = obj u := by
  rw [hcov.addr_eq t, hcov.addr_eq u, h]

/-- The word and the mask of an object, read at its bit index. -/
theorem Covered.index_mask (hcov : Covered b obj) {hb : Nat} (hhb : hb = b.heapBegin) (t : τ) :
    offsetToIndex (obj t - hb) = objBit b (obj t) / 32 ∧
      offsetToMask (obj t - hb) = (0x80000000 : UInt32) >>> (objBit b (obj t) % 32).toUInt32 := by
  rw [hhb, hcov.offset_eq t]
  exact ⟨offsetToIndex_mul _, offsetToMask_mul _⟩

/-- Test reads an object's bit, on any bitmap of the same heap. -/
theorem Covered.test_eq_bit (hcov : Covered b obj) {c : SpaceBitmap} (hc : c.heapBegin = b.heapBegin)
    (t : τ) : c.test (obj t) = c.bit (objBit b (obj t)) := by
  have h := test_addr c (objBit b (obj t))
  rw [hc, ← hcov.addr_eq t] at h
  exact h

/-- The fast path's test reads the object's bit. -/
theorem word_and_mask_eq_zero_iff (c : SpaceBitmap) (m : Nat) :
    c.word (m / 32) &&& ((0x80000000 : UInt32) >>> (m % 32).toUInt32) = 0 ↔ c.bit m = false :=
  and_highBit_eq_zero_iff _ (Nat.mod_lt _ (by decide))

/-- A successful swap sets the object's bit and keeps every other. -/
theorem bit_setWord_or {c : SpaceBitmap} {m : Nat} (hm : m / 32 < c.bitmap.length) (n : Nat) :
    (c.setWord (m / 32) (c.word (m / 32) ||| ((0x80000000 : UInt32) >>> (m % 32).toUInt32))).bit n =
      (c.bit n || decide (n = m)) := by
  unfold bit
  rw [word_setWord _ hm]
  by_cases hw : n / 32 = m / 32
  · rw [if_pos hw, UInt32.toNat_or, Nat.testBit_or, testBit_highBit _ _ (Nat.mod_lt _ (by decide)), hw]
    congr 1
    simp only [decide_eq_decide]
    omega
  · rw [if_neg hw, eq_comm, Bool.or_eq_left_iff_imp, decide_eq_true_iff]
    intro hnm
    exact absurd (congrArg (· / 32) hnm) hw

/-- A successful swap only adds a bit. -/
theorem testBit_setWord_or {c : SpaceBitmap} {m : Nat} (hm : m / 32 < c.bitmap.length) {i j : Nat}
    (h : (c.word i).toNat.testBit j = true) :
    ((c.setWord (m / 32) (c.word (m / 32) ||| ((0x80000000 : UInt32) >>> (m % 32).toUInt32))).word
      i).toNat.testBit j = true := by
  rw [word_setWord _ hm]
  split
  · rename_i hi
    rw [UInt32.toNat_or, Nat.testBit_or, ← hi, h, Bool.true_or]
  · exact h

variable [DecidableEq τ]

@[simp] theorem MarkingState.setPc_bitmap (s : MarkingState τ) (t : τ) (p : TestAndSetPc) :
    (s.setPc t p).bitmap = s.bitmap := rfl

theorem MarkingState.setPc_pc (s : MarkingState τ) (t : τ) (p : TestAndSetPc) (u : τ) :
    (s.setPc t p).pc u = if u = t then p else s.pc u :=
  Function.update_apply _ _ _ _

/-- The four things a step of a call can do: take the fast path, read a word
    with the bit clear, swap in the bit, or fail to swap and go round. -/
theorem testAndSetNext_cases {s s' : MarkingState τ} {t : τ} (h : testAndSetNext obj s t = some s') :
    (s.pc t = .read ∧
        s.bitmap.word (offsetToIndex (obj t - s.bitmap.heapBegin)) &&&
          offsetToMask (obj t - s.bitmap.heapBegin) ≠ 0 ∧
        s' = s.setPc t (.done true)) ∨
      (s.pc t = .read ∧
        s.bitmap.word (offsetToIndex (obj t - s.bitmap.heapBegin)) &&&
          offsetToMask (obj t - s.bitmap.heapBegin) = 0 ∧
        s' = s.setPc t (.cas (s.bitmap.word (offsetToIndex (obj t - s.bitmap.heapBegin))))) ∨
      (∃ old_word, s.pc t = .cas old_word ∧
        s.bitmap.word (offsetToIndex (obj t - s.bitmap.heapBegin)) = old_word ∧
        s' = ⟨s.bitmap.setWord (offsetToIndex (obj t - s.bitmap.heapBegin))
          (old_word ||| offsetToMask (obj t - s.bitmap.heapBegin)),
          Function.update s.pc t (.done false)⟩) ∨
      (∃ old_word, s.pc t = .cas old_word ∧
        s.bitmap.word (offsetToIndex (obj t - s.bitmap.heapBegin)) ≠ old_word ∧
        s' = s.setPc t .read) := by
  unfold testAndSetNext at h
  dsimp only at h
  split at h
  · rename_i hpc
    split at h
    · exact .inl ⟨hpc, ‹_›, (Option.some.inj h).symm⟩
    · exact .inr (.inl ⟨hpc, not_not.mp ‹_›, (Option.some.inj h).symm⟩)
  · rename_i old_word hpc
    split at h
    · exact .inr (.inr (.inl ⟨old_word, hpc, ‹_›, (Option.some.inj h).symm⟩))
    · exact .inr (.inr (.inr ⟨old_word, hpc, ‹_›, (Option.some.inj h).symm⟩))
  · cases h

/-- A call has a step until it has returned. -/
theorem testAndSetNext_eq_none_iff {s : MarkingState τ} {t : τ} :
    testAndSetNext obj s t = none ↔ ∃ r, s.pc t = .done r := by
  unfold testAndSetNext
  cases hpc : s.pc t with
  | read => dsimp only; split <;> simp
  | cas old_word => dsimp only; split <;> simp
  | done r => simp

end Step

section Invariant

variable [DecidableEq τ] {b : SpaceBitmap} {obj : τ → Nat}

/-- What every interleaving keeps, against the bitmap `b` the calls started
    on: the heap and the size stay; a bit is set exactly when it was at the
    start or a call on its object has won its swap; a winner found its bit
    clear, and an object has one winner; a call that took the fast path saw
    its bit set; and a call about to swap read its bit clear, in a word that
    has only gained bits since. -/
structure MarkingInv (b : SpaceBitmap) (obj : τ → Nat) (s : MarkingState τ) : Prop where
  heapBegin_eq : s.bitmap.heapBegin = b.heapBegin
  length_eq : s.bitmap.bitmap.length = b.bitmap.length
  bit_iff : ∀ n, s.bitmap.bit n = true ↔
    b.bit n = true ∨ ∃ t, objBit b (obj t) = n ∧ s.pc t = .done false
  winner_clear : ∀ t, s.pc t = .done false → b.bit (objBit b (obj t)) = false
  winner_unique : ∀ t u, s.pc t = .done false → s.pc u = .done false → obj t = obj u → t = u
  fast_set : ∀ t, s.pc t = .done true → s.bitmap.bit (objBit b (obj t)) = true
  cas_clear : ∀ t old_word, s.pc t = .cas old_word →
    old_word.toNat.testBit (31 - objBit b (obj t) % 32) = false
  cas_le : ∀ t old_word, s.pc t = .cas old_word → ∀ j, old_word.toNat.testBit j = true →
    (s.bitmap.word (objBit b (obj t) / 32)).toNat.testBit j = true

/-- A step that moves a call between places other than a win changes no
    winner and no bit. -/
theorem MarkingInv.setPc {s : MarkingState τ} (hinv : MarkingInv b obj s) {t : τ} {p : TestAndSetPc}
    (hold : s.pc t ≠ .done false) (hnew : p ≠ .done false)
    (hfast : p = .done true → s.bitmap.bit (objBit b (obj t)) = true)
    (hcas : ∀ old_word, p = .cas old_word →
      old_word.toNat.testBit (31 - objBit b (obj t) % 32) = false ∧ ∀ j,
        old_word.toNat.testBit j = true → (s.bitmap.word (objBit b (obj t) / 32)).toNat.testBit j = true) :
    MarkingInv b obj (s.setPc t p) := by
  -- the winners are the same calls as before
  have hwin : ∀ u, (s.setPc t p).pc u = .done false ↔ s.pc u = .done false := by
    intro u
    rw [MarkingState.setPc_pc]
    split
    · rename_i hu
      subst hu
      exact ⟨fun h => absurd h hnew, fun h => absurd h hold⟩
    · rfl
  refine ⟨hinv.heapBegin_eq, hinv.length_eq, fun n => ?_, fun u hu => hinv.winner_clear u ((hwin u).1 hu),
    fun u v hu hv => hinv.winner_unique u v ((hwin u).1 hu) ((hwin v).1 hv), fun u hu => ?_,
    fun u old_word hu => ?_, fun u old_word hu => ?_⟩
  · simp only [MarkingState.setPc_bitmap, hwin]
    exact hinv.bit_iff n
  · rw [MarkingState.setPc_pc] at hu
    split at hu
    · rename_i hut
      subst hut
      exact hfast hu
    · exact hinv.fast_set u hu
  · rw [MarkingState.setPc_pc] at hu
    split at hu
    · rename_i hut
      subst hut
      exact (hcas old_word hu).1
    · exact hinv.cas_clear u old_word hu
  · rw [MarkingState.setPc_pc] at hu
    split at hu
    · rename_i hut
      subst hut
      exact (hcas old_word hu).2
    · exact hinv.cas_le u old_word hu

/-- Every step keeps the invariant. -/
theorem MarkingInv.next (hcov : Covered b obj) {s s' : MarkingState τ} (hinv : MarkingInv b obj s)
    {t : τ} (h : testAndSetNext obj s t = some s') : MarkingInv b obj s' := by
  obtain ⟨hidx, hmask⟩ := hcov.index_mask hinv.heapBegin_eq t
  have hlt : objBit b (obj t) / 32 < s.bitmap.bitmap.length := hinv.length_eq ▸ hcov.index_lt t
  rcases testAndSetNext_cases h with ⟨hpc, hset, rfl⟩ | ⟨hpc, hclear, rfl⟩ |
      ⟨old_word, hpc, hword, rfl⟩ | ⟨old_word, hpc, hword, rfl⟩
  · -- the fast path: the bit is set
    rw [hidx, hmask, Ne, word_and_mask_eq_zero_iff, Bool.not_eq_false] at hset
    exact hinv.setPc (by rw [hpc]; nofun) nofun (fun _ => hset) nofun
  · -- the bit is clear: the call keeps the word it read
    rw [hidx, hmask, word_and_mask_eq_zero_iff] at hclear
    refine hinv.setPc (by rw [hpc]; nofun) nofun nofun fun old_word hp => ?_
    cases hp
    rw [hidx]
    exact ⟨hclear, fun _ hj => hj⟩
  · -- the swap succeeds on the word the call read, with its bit clear
    rw [hidx] at hword
    rw [hidx, hmask]
    subst hword
    have hclear : s.bitmap.bit (objBit b (obj t)) = false := hinv.cas_clear t _ hpc
    have hbit := bit_setWord_or hlt
    -- nobody has won on this object yet
    have hnone : ∀ u, s.pc u = .done false → objBit b (obj u) ≠ objBit b (obj t) := by
      intro u hu heq
      have hset := (hinv.bit_iff _).mpr (Or.inr ⟨u, heq, hu⟩)
      rw [hclear] at hset
      cases hset
    have hwin : ∀ u, Function.update s.pc t (.done false) u = .done false ↔
        u = t ∨ s.pc u = .done false := by
      intro u
      rw [Function.update_apply]
      split
      · rename_i hu
        exact ⟨fun _ => .inl hu, fun _ => rfl⟩
      · rename_i hu
        exact ⟨.inr, fun h => h.resolve_left hu⟩
    have hother : ∀ u, Function.update s.pc t (.done false) u ≠ .done false →
        Function.update s.pc t (.done false) u = s.pc u := by
      intro u hu
      rw [Function.update_apply, if_neg]
      rintro rfl
      exact hu (by rw [Function.update_self])
    refine ⟨hinv.heapBegin_eq, by rw [← hinv.length_eq]; exact List.length_set .., fun n => ?_,
      fun u hu => ?_, fun u v hu hv huv => ?_, fun u hu => ?_, fun u ow hu => ?_,
      fun u ow hu j hj => ?_⟩
    · simp only [hbit, Bool.or_eq_true, decide_eq_true_eq, hinv.bit_iff, hwin]
      constructor
      · rintro ((hb | ⟨u, rfl, hu⟩) | rfl)
        · exact .inl hb
        · exact .inr ⟨u, rfl, .inr hu⟩
        · exact .inr ⟨t, rfl, .inl rfl⟩
      · rintro (hb | ⟨u, rfl, rfl | hu⟩)
        · exact .inl (.inl hb)
        · exact .inr rfl
        · exact .inl (.inr ⟨u, rfl, hu⟩)
    · rcases (hwin u).mp hu with rfl | hu
      · -- the winner's bit was clear at the start
        cases hstart : b.bit (objBit b (obj u))
        · rfl
        · have hset := (hinv.bit_iff _).mpr (.inl hstart)
          rw [hclear] at hset
          cases hset
      · exact hinv.winner_clear u hu
    · rcases (hwin u).mp hu with rfl | hu' <;> rcases (hwin v).mp hv with rfl | hv'
      · rfl
      · exact absurd (congrArg (objBit b) huv.symm) (hnone v hv')
      · exact absurd (congrArg (objBit b) huv) (hnone u hu')
      · exact hinv.winner_unique u v hu' hv' huv
    · dsimp only at hu ⊢
      rw [hother u (by rw [hu]; nofun)] at hu
      rw [hbit, hinv.fast_set u hu, Bool.true_or]
    · dsimp only at hu ⊢
      rw [hother u (by rw [hu]; nofun)] at hu
      exact hinv.cas_clear u ow hu
    · dsimp only at hu ⊢
      rw [hother u (by rw [hu]; nofun)] at hu
      exact testBit_setWord_or hlt (hinv.cas_le u ow hu j hj)
  · -- the swap fails: the call goes round
    exact hinv.setPc (by rw [hpc]; nofun) nofun nofun nofun

/-- Every reachable state keeps the invariant. -/
theorem markingInv_reach (hcov : Covered b obj) {s : MarkingState τ}
    (hs : (testAndSetSystem b obj).Reach s) : MarkingInv b obj s := by
  refine System.Inductive.reach ⟨?_, fun t s s' hinv h => hinv.next hcov h⟩ hs
  rintro s ⟨rfl, hread⟩
  refine ⟨rfl, rfl, fun n => ?_, fun t ht => ?_, fun t _ ht => ?_, fun t ht => ?_,
    fun t _ ht => ?_, fun t _ ht => ?_⟩ <;> simp_all

end Invariant

section Termination

variable [DecidableEq τ] {b : SpaceBitmap} {obj : τ → Nat}

/-- The clear bits of a word. -/
def clearBits (w : UInt32) : Nat :=
  ((Finset.range 32).filter fun j => w.toNat.testBit j = false).card

/-- What a call may still cost: a read to come twice the clear bits of the
    word it will read, and two; a swap to come twice the clear bits of the
    word it read, and one. -/
def callPotential (b : SpaceBitmap) (obj : τ → Nat) (s : MarkingState τ) (t : τ) : Nat :=
  match s.pc t with
  | .read => 2 * clearBits (s.bitmap.word (objBit b (obj t) / 32)) + 2
  | .cas old_word => 2 * clearBits old_word + 1
  | .done _ => 0

/-- What all calls may still cost. -/
def potential [Fintype τ] (b : SpaceBitmap) (obj : τ → Nat) (s : MarkingState τ) : Nat :=
  ∑ t, callPotential b obj s t

theorem clearBits_le (w : UInt32) : clearBits w ≤ 32 :=
  (Finset.card_filter_le _ _).trans (Finset.card_range 32).le

/-- A bit clear in a word with more bits is clear in the word. -/
theorem testBit_eq_false_of_le {w w' : UInt32}
    (h : ∀ j, w.toNat.testBit j = true → w'.toNat.testBit j = true) {j : Nat}
    (hj : w'.toNat.testBit j = false) : w.toNat.testBit j = false :=
  Bool.eq_false_iff.mpr fun hw => by
    have := h j hw
    rw [hj] at this
    exact Bool.false_ne_true this

/-- A word with more bits has fewer clear ones. -/
theorem clearBits_le_of_le {w w' : UInt32} (h : ∀ j, w.toNat.testBit j = true → w'.toNat.testBit j = true) :
    clearBits w' ≤ clearBits w := by
  refine Finset.card_le_card fun j hj => ?_
  rw [Finset.mem_filter] at hj ⊢
  exact ⟨hj.1, testBit_eq_false_of_le h hj.2⟩

/-- A word with a bit more has a clear bit less. -/
theorem clearBits_lt_of_le {w w' : UInt32} (h : ∀ j, w.toNat.testBit j = true → w'.toNat.testBit j = true)
    (hne : w' ≠ w) : clearBits w' < clearBits w := by
  -- a bit below 32 that w' has and w has not
  have ⟨j, hj⟩ : ∃ j, w'.toNat.testBit j ≠ w.toNat.testBit j := by
    by_contra hall
    simp only [ne_eq, not_exists, not_not] at hall
    exact hne (UInt32.toNat_inj.mp (Nat.eq_of_testBit_eq hall))
  have hw' : w'.toNat.testBit j = true := by
    cases hwj' : w'.toNat.testBit j
    · rw [hwj', testBit_eq_false_of_le h hwj'] at hj
      exact absurd rfl hj
    · rfl
  have hw : w.toNat.testBit j = false := by
    rw [hw'] at hj
    exact Bool.eq_false_iff.mpr (Ne.symm hj)
  have hj32 : j < 32 := by
    by_contra hge
    rw [Nat.testBit_lt_two_pow (lt_of_lt_of_le w'.toNat_lt
      (Nat.pow_le_pow_right (by decide) (by omega)))] at hw'
    exact Bool.false_ne_true hw'
  refine Finset.card_lt_card ⟨fun i hi => ?_, fun hsub => ?_⟩
  · rw [Finset.mem_filter] at hi ⊢
    exact ⟨hi.1, testBit_eq_false_of_le h hi.2⟩
  · have hjmem : j ∈ (Finset.range 32).filter fun j => w.toNat.testBit j = false :=
      Finset.mem_filter.mpr ⟨Finset.mem_range.mpr hj32, hw⟩
    have := (Finset.mem_filter.mp (hsub hjmem)).2
    rw [hw'] at this
    exact Bool.false_ne_true this.symm

omit [DecidableEq τ] in
/-- A call that did not move costs no more once words have gained bits. -/
theorem callPotential_le {s s' : MarkingState τ} {u : τ} (hpc : s'.pc u = s.pc u)
    (hgrow : ∀ i j, (s.bitmap.word i).toNat.testBit j = true → (s'.bitmap.word i).toNat.testBit j = true) :
    callPotential b obj s' u ≤ callPotential b obj s u := by
  unfold callPotential
  rw [hpc]
  split
  · exact Nat.add_le_add_right (Nat.mul_le_mul_left 2 (clearBits_le_of_le (hgrow _))) 2
  · exact le_refl _
  · exact le_refl _

/-- Every step lowers the potential: the moving call's cost goes down, a
    failed swap's because the word it read has gained a bit since, and the
    others' costs do not go up. -/
theorem potential_step_lt [Fintype τ] (hcov : Covered b obj) {s s' : MarkingState τ}
    (hinv : MarkingInv b obj s) {t : τ} (h : testAndSetNext obj s t = some s') :
    potential b obj s' < potential b obj s := by
  obtain ⟨hidx, hmask⟩ := hcov.index_mask hinv.heapBegin_eq t
  have hlt : objBit b (obj t) / 32 < s.bitmap.bitmap.length := hinv.length_eq ▸ hcov.index_lt t
  -- the other calls stay where they are, and words only gain bits
  have hothers : ∀ u, u ≠ t → s'.pc u = s.pc u ∧ ∀ i j,
      (s.bitmap.word i).toNat.testBit j = true → (s'.bitmap.word i).toNat.testBit j = true := by
    intro u hu
    rcases testAndSetNext_cases h with ⟨-, -, rfl⟩ | ⟨-, -, rfl⟩ | ⟨old_word, -, hword, rfl⟩ |
        ⟨-, -, -, rfl⟩
    · exact ⟨by rw [MarkingState.setPc_pc, if_neg hu], fun _ _ hj => hj⟩
    · exact ⟨by rw [MarkingState.setPc_pc, if_neg hu], fun _ _ hj => hj⟩
    · rw [hidx] at hword
      rw [hidx, hmask, ← hword]
      exact ⟨Function.update_of_ne hu _ _, fun i j hj => testBit_setWord_or hlt hj⟩
    · exact ⟨by rw [MarkingState.setPc_pc, if_neg hu], fun _ _ hj => hj⟩
  -- the moving call's cost goes down
  have hself : callPotential b obj s' t < callPotential b obj s t := by
    rcases testAndSetNext_cases h with ⟨hpc, -, rfl⟩ | ⟨hpc, -, rfl⟩ | ⟨old_word, hpc, -, rfl⟩ |
        ⟨old_word, hpc, hword, rfl⟩
    · simp [callPotential, hpc, MarkingState.setPc_pc]
    · simp [callPotential, hpc, MarkingState.setPc_pc, hidx]
    · simp [callPotential, hpc]
    · rw [hidx] at hword
      have hfewer := clearBits_lt_of_le (hinv.cas_le t old_word hpc) hword
      simp only [callPotential, hpc, MarkingState.setPc_pc, if_pos, MarkingState.setPc_bitmap]
      omega
  refine Finset.sum_lt_sum (fun u _ => ?_) ⟨t, Finset.mem_univ t, hself⟩
  by_cases hu : u = t
  · exact hu ▸ hself.le
  · exact callPotential_le (hothers u hu).1 (hothers u hu).2

omit [DecidableEq τ] in
/-- At the start every call is about to read: at most 66 each. -/
theorem potential_init_le [Fintype τ] {s : MarkingState τ} (hread : ∀ t, s.pc t = .read) :
    potential b obj s ≤ 66 * Fintype.card τ := by
  have hcall : ∀ t ∈ Finset.univ, callPotential b obj s t ≤ 66 := by
    intro t _
    have := clearBits_le (s.bitmap.word (objBit b (obj t) / 32))
    simp only [callPotential, hread t]
    omega
  calc potential b obj s
      ≤ Finset.univ.card • 66 := Finset.sum_le_card_nsmul Finset.univ _ 66 hcall
    _ = 66 * Fintype.card τ := by rw [Finset.card_univ, Nat.nsmul_eq_mul, Nat.mul_comm]

end Termination

section Outcome

variable [DecidableEq τ] {b : SpaceBitmap} {obj : τ → Nat}

/-- What the calls promise once all have returned, against the bitmap `b`
    they started on: the heap and the size are kept; every object's bit is
    set and every other bit is as it was; an object whose bit was clear has
    one call that returned false and all its others returned true; and the
    calls on an object whose bit was set all returned true. -/
structure MarkingOutcome (b : SpaceBitmap) (obj : τ → Nat) (s : MarkingState τ) : Prop where
  heapBegin_eq : s.bitmap.heapBegin = b.heapBegin
  length_eq : s.bitmap.bitmap.length = b.bitmap.length
  test_obj : ∀ t, s.bitmap.test (obj t) = true
  bit_other : ∀ n, (∀ t, objBit b (obj t) ≠ n) → s.bitmap.bit n = b.bit n
  one_winner : ∀ t, b.test (obj t) = false → ∃ w, obj w = obj t ∧ s.pc w = .done false ∧
    ∀ u, obj u = obj t → u ≠ w → s.pc u = .done true
  set_true : ∀ t, b.test (obj t) = true → s.pc t = .done true

omit [DecidableEq τ] in
/-- Once every call has returned, the invariant gives the outcome. -/
theorem MarkingInv.outcome (hcov : Covered b obj) {s : MarkingState τ} (hinv : MarkingInv b obj s)
    (hdone : ∀ t, ∃ r, s.pc t = .done r) : MarkingOutcome b obj s := by
  have htest : ∀ t, s.bitmap.test (obj t) = true := by
    intro t
    rw [hcov.test_eq_bit hinv.heapBegin_eq]
    obtain ⟨r, hr⟩ := hdone t
    cases r with
    | false => exact (hinv.bit_iff _).mpr (.inr ⟨t, rfl, hr⟩)
    | true => exact hinv.fast_set t hr
  refine ⟨hinv.heapBegin_eq, hinv.length_eq, htest, fun n hn => ?_, fun t hclear => ?_,
    fun t hset => ?_⟩
  · -- no call on bit `n`, so no winner set it
    refine Bool.eq_iff_iff.mpr ((hinv.bit_iff n).trans ⟨fun h => ?_, .inl⟩)
    rcases h with h | ⟨t, ht, -⟩
    · exact h
    · exact absurd ht (hn t)
  · -- the object's bit is set now and was not at the start: a call won it
    have hset := htest t
    rw [hcov.test_eq_bit hinv.heapBegin_eq] at hset
    rw [hcov.test_eq_bit rfl] at hclear
    rcases (hinv.bit_iff _).mp hset with h | ⟨w, hw, hwin⟩
    · rw [hclear] at h
      exact absurd h Bool.false_ne_true
    have hobj : obj w = obj t := hcov.obj_eq_of_objBit_eq hw
    refine ⟨w, hobj, hwin, fun u hu huw => ?_⟩
    obtain ⟨r, hr⟩ := hdone u
    cases r with
    | false => exact absurd (hinv.winner_unique u w hr hwin (hu.trans hobj.symm)) huw
    | true => exact hr
  · -- a winner found its bit clear
    obtain ⟨r, hr⟩ := hdone t
    cases r with
    | false =>
      have hclear := hinv.winner_clear t hr
      rw [hcov.test_eq_bit rfl, hclear] at hset
      exact absurd hset Bool.false_ne_true
    | true => exact hr

/-- AtomicTestAndSet under every interleaving: every run is at most 66 steps
    per call long and ends only when every call has returned, and once they
    have, the bitmap and the returns are those `MarkingOutcome` states. -/
theorem atomicTestAndSet_concurrent [Fintype τ] (b : SpaceBitmap) (obj : τ → Nat)
    (hcov : Covered b obj) :
    (∀ s₀ ls s, (testAndSetSystem b obj).init s₀ → (testAndSetSystem b obj).Run s₀ ls s →
      ls.length ≤ 66 * Fintype.card τ ∧
        ((∀ t, testAndSetNext obj s t = none) → ∀ t, ∃ r, s.pc t = .done r)) ∧
      ∀ s, (testAndSetSystem b obj).Reach s → (∀ t, ∃ r, s.pc t = .done r) →
        MarkingOutcome b obj s := by
  refine ⟨fun s₀ ls s hinit hrun => ⟨?_, fun hnone t => testAndSetNext_eq_none_iff.mp (hnone t)⟩,
    fun s hs hdone => (markingInv_reach hcov hs).outcome hcov hdone⟩
  -- the potential bounds the run
  have hinv₀ : MarkingInv b obj s₀ := markingInv_reach hcov (System.Reach.init hinit)
  have hstep : ∀ t s s', MarkingInv b obj s → (testAndSetSystem b obj).step t s s' →
      MarkingInv b obj s' :=
    fun _ _ _ hinv h => hinv.next hcov h
  have hdown : ∀ t s s', MarkingInv b obj s → (testAndSetSystem b obj).step t s s' →
      potential b obj s' < potential b obj s :=
    fun _ _ _ hinv h => potential_step_lt hcov hinv h
  have hlen := System.Run.measure_add_length_le hstep hdown hrun hinv₀
  have hstart : potential b obj s₀ ≤ 66 * Fintype.card τ := potential_init_le hinit.2
  omega

/-- Two calls on one object of a clear bitmap. -/
theorem atomicTestAndSet_concurrent_oneObject :
    Covered noMarks (fun _ : Fin 2 => 4096) ∧
      (∀ s₀ ls s, (testAndSetSystem noMarks fun _ : Fin 2 => 4096).init s₀ →
        (testAndSetSystem noMarks fun _ : Fin 2 => 4096).Run s₀ ls s →
        ls.length ≤ 66 * Fintype.card (Fin 2) ∧
          ((∀ t, testAndSetNext (fun _ : Fin 2 => 4096) s t = none) →
            ∀ t, ∃ r, s.pc t = .done r)) ∧
      ∀ s, (testAndSetSystem noMarks fun _ : Fin 2 => 4096).Reach s →
        (∀ t, ∃ r, s.pc t = .done r) → MarkingOutcome noMarks (fun _ : Fin 2 => 4096) s :=
  ⟨by intro _; dsimp only; decide,
    atomicTestAndSet_concurrent noMarks (fun _ : Fin 2 => 4096) (by intro _; dsimp only; decide)⟩

end Outcome

end Gc

end ArtRuntime
