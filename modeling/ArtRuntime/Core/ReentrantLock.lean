import Mathlib.Logic.Function.Basic

/-!
# Reentrant Locks

A reentrant lock, as the Java language specifies monitors: free, or held by
one thread some positive number of times. An enter by the holder, or on a
free lock, adds a hold; an enter while another thread holds the lock blocks.
An exit by the holder removes a hold, and the last one frees the lock; an
exit by any other thread fails and changes nothing.

This is the meaning an implementation of monitors is measured against: a
lock word or a monitor record refines it when each of its operations does
what the operation here does to the state it represents.

## Main definitions

* `ReentrantLock`: The state.
* `ReentrantLock.enter`, `ReentrantLock.exit`: The operations.
* `ReentrantLock.holdCount`: How many times a thread holds the lock.

## Theorems

* `holdCount_enter`, `holdCount_exit`: An enter adds one hold of its thread,
  an exit removes one, and the other threads' holds stay.
* `enter_isSome_iff`: An enter proceeds exactly when no other thread holds
  the lock.
* `exit_fst_iff`, `exit_of_holdCount_eq_zero`: An exit succeeds exactly when
  its thread holds the lock, and otherwise changes nothing.
* `eq_of_holdCount_pos`: At most one thread holds the lock.
* `eq_free_iff`: The lock is free exactly when no thread holds it.
-/

/-- A reentrant lock: free, or held by `owner` `count + 1` times. -/
inductive ReentrantLock (τ : Type)
  | free
  | held (owner : τ) (count : Nat)
  deriving DecidableEq

namespace ReentrantLock

variable {τ : Type} [DecidableEq τ]

/-- Enter the lock as thread `t`: none while another thread holds it. -/
def enter (t : τ) : ReentrantLock τ → Option (ReentrantLock τ)
  | free => some (held t 0)
  | held u n => if u = t then some (held t (n + 1)) else none

/-- Exit the lock as thread `t`: whether `t` held it, and the lock after. -/
def exit (t : τ) : ReentrantLock τ → Bool × ReentrantLock τ
  | free => (false, free)
  | held u 0 => if u = t then (true, free) else (false, held u 0)
  | held u (n + 1) => if u = t then (true, held u n) else (false, held u (n + 1))

/-- How many times thread `t` holds the lock. -/
def holdCount (t : τ) : ReentrantLock τ → Nat
  | free => 0
  | held u n => if u = t then n + 1 else 0

variable {t u : τ} {l l' : ReentrantLock τ}

theorem holdCount_enter (h : l.enter t = some l') (u : τ) :
    l'.holdCount u = if u = t then l.holdCount u + 1 else l.holdCount u := by
  cases l with
  | free =>
    cases h
    by_cases hu : u = t
    · simp [holdCount, hu]
    · simp [holdCount, Ne.symm hu, hu]
  | held v n =>
    by_cases hv : v = t
    · subst hv
      rw [enter, if_pos rfl, Option.some_inj] at h
      subst h
      by_cases hu : u = v
      · simp [holdCount, hu]
      · simp [holdCount, Ne.symm hu, hu]
    · simp [enter, hv] at h

theorem enter_isSome_iff : (l.enter t).isSome = true ↔ ∀ u, u ≠ t → l.holdCount u = 0 := by
  cases l with
  | free => simp [enter, holdCount]
  | held v n =>
    by_cases hv : v = t
    · subst hv
      rw [enter, if_pos rfl, Option.isSome_some]
      refine iff_of_true rfl ?_
      intro u hu
      simp [holdCount, Ne.symm hu]
    · simp only [enter, if_neg hv, Option.isSome_none, Bool.false_eq_true, false_iff, not_forall]
      exact ⟨v, hv, by simp [holdCount]⟩

theorem holdCount_exit (t u : τ) (l : ReentrantLock τ) :
    (l.exit t).2.holdCount u = if u = t then l.holdCount u - 1 else l.holdCount u := by
  cases l with
  | free => simp [exit, holdCount]
  | held v n =>
    by_cases hv : v = t
    · subst hv
      by_cases hu : u = v
      · cases n <;> simp [exit, holdCount, hu]
      · cases n <;> simp [exit, holdCount, hu, Ne.symm hu]
    · by_cases hu : u = t
      · subst hu
        cases n <;> simp [exit, holdCount, hv]
      · cases n <;> simp [exit, holdCount, hv, hu]

theorem exit_fst_iff : (l.exit t).1 = true ↔ 0 < l.holdCount t := by
  cases l with
  | free => simp [exit, holdCount]
  | held v n =>
    by_cases hv : v = t
    · cases n <;> simp [exit, holdCount, hv]
    · cases n <;> simp [exit, holdCount, hv]

theorem exit_of_holdCount_eq_zero (h : l.holdCount t = 0) : l.exit t = (false, l) := by
  cases l with
  | free => rfl
  | held v n =>
    have hv : v ≠ t := by
      intro hv
      simp [holdCount, hv] at h
    cases n <;> simp [exit, hv]

theorem eq_of_holdCount_pos (ht : 0 < l.holdCount t) (hu : 0 < l.holdCount u) : t = u := by
  cases l with
  | free => simp [holdCount] at ht
  | held v n =>
    by_cases hvt : v = t
    · by_cases hvu : v = u
      · exact hvt.symm.trans hvu
      · simp [holdCount, hvu] at hu
    · simp [holdCount, hvt] at ht

theorem eq_free_iff : l = free ↔ ∀ t, l.holdCount t = 0 := by
  cases l with
  | free => simp [holdCount]
  | held v n =>
    simp only [reduceCtorEq, false_iff, not_forall]
    exact ⟨v, by simp [holdCount]⟩

end ReentrantLock
