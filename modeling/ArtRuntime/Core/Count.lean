import Mathlib.Algebra.BigOperators.Group.Finset.Piecewise
import Mathlib.Data.Fintype.Card

/-!
# Counting Points of a Map

How many points of a finite type a map sends to values with a property, and
how that number moves when the map changes at one point. A counter that each
thread increments when it enters some phases and decrements when it leaves
them is, in every reachable state, the count of threads in those phases.

## Main definitions

* `Count.countWhere`: The number of points whose image has the property.

## Theorems

* `Count.countWhere_update`: Changing the map at one point changes the count
  by what that point gains or loses.
* `Count.countWhere_update_of_enter`, `Count.countWhere_update_of_leave`,
  `Count.countWhere_update_of_iff`: The three cases of it.
* `Count.countWhere_pos_iff`: The count is positive exactly when some point
  counts.
-/

namespace Count

variable {τ α : Type} [Fintype τ] (p : α → Prop) [DecidablePred p]

/-- The number of points whose image satisfies `p`. -/
def countWhere (f : τ → α) : Nat :=
  (Finset.univ.filter fun x => p (f x)).card

variable {p}

theorem countWhere_pos_iff {f : τ → α} : 0 < countWhere p f ↔ ∃ x, p (f x) := by
  unfold countWhere
  rw [Finset.card_pos, Finset.filter_nonempty_iff]
  simp

variable [DecidableEq τ]

theorem countWhere_update (f : τ → α) (t : τ) (a : α) :
    countWhere p (Function.update f t a) + (if p (f t) then 1 else 0) =
      countWhere p f + (if p a then 1 else 0) := by
  unfold countWhere
  rw [Finset.card_filter, Finset.card_filter, ← Finset.add_sum_erase _ _ (Finset.mem_univ t),
    ← Finset.add_sum_erase _ _ (Finset.mem_univ t)]
  -- away from t the two maps agree
  have hrest : ∑ x ∈ Finset.univ.erase t, (if p (Function.update f t a x) then 1 else 0) =
      ∑ x ∈ Finset.univ.erase t, (if p (f x) then 1 else 0) :=
    Finset.sum_congr rfl fun x hx => by rw [Function.update_of_ne (Finset.ne_of_mem_erase hx)]
  rw [hrest, Function.update_self]
  omega

theorem countWhere_update_of_enter {f : τ → α} {t : τ} {a : α} (hf : ¬ p (f t)) (ha : p a) :
    countWhere p (Function.update f t a) = countWhere p f + 1 := by
  have h := countWhere_update (p := p) f t a
  rw [if_neg hf, if_pos ha] at h
  omega

theorem countWhere_update_of_leave {f : τ → α} {t : τ} {a : α} (hf : p (f t)) (ha : ¬ p a) :
    countWhere p (Function.update f t a) + 1 = countWhere p f := by
  have h := countWhere_update (p := p) f t a
  rw [if_pos hf, if_neg ha] at h
  omega

theorem countWhere_update_of_iff {f : τ → α} {t : τ} {a : α} (h : p (f t) ↔ p a) :
    countWhere p (Function.update f t a) = countWhere p f := by
  have hc := countWhere_update (p := p) f t a
  by_cases ha : p a
  · rw [if_pos (h.mpr ha), if_pos ha] at hc
    omega
  · rw [if_neg (fun hf => ha (h.mp hf)), if_neg ha] at hc
    omega

end Count
