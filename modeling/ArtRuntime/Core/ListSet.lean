import Mathlib.Data.List.Nodup

/-!
# Appending What Is Missing

A table filled in order, with a scan for duplicates before each write: an
element is appended only when it is not already there. The table stays free
of duplicates, and its members are those it started with and those offered.

## Main definitions

* `appendNew`: Append an element unless it is present.
* `appendAllNew`: Append each element of a list unless it is present.

## Theorems

* `mem_appendAllNew`: The members are the old ones and the offered ones.
* `nodup_appendAllNew`: No duplicate is introduced.
-/

namespace ListSet

variable {α : Type} [DecidableEq α]

/-- Append `a` unless it is already in `acc`. -/
def appendNew (acc : List α) (a : α) : List α :=
  if a ∈ acc then acc else acc ++ [a]

/-- Append the elements of `xs` in order, each unless it is already present. -/
def appendAllNew (acc xs : List α) : List α :=
  xs.foldl appendNew acc

theorem mem_appendNew {acc : List α} {a b : α} : b ∈ appendNew acc a ↔ b ∈ acc ∨ b = a := by
  unfold appendNew
  by_cases ha : a ∈ acc
  · rw [if_pos ha]
    constructor
    · exact Or.inl
    · rintro (hb | rfl)
      · exact hb
      · exact ha
  · rw [if_neg ha, List.mem_append, List.mem_singleton]

theorem nodup_appendNew {acc : List α} (h : acc.Nodup) (a : α) : (appendNew acc a).Nodup := by
  unfold appendNew
  by_cases ha : a ∈ acc
  · rw [if_pos ha]
    exact h
  · rw [if_neg ha, List.nodup_append]
    exact ⟨h, List.nodup_singleton a, fun x hx y hy => by
      rw [List.mem_singleton] at hy
      rintro rfl
      exact ha (hy ▸ hx)⟩

theorem mem_appendAllNew {acc xs : List α} {b : α} :
    b ∈ appendAllNew acc xs ↔ b ∈ acc ∨ b ∈ xs := by
  induction xs generalizing acc with
  | nil => simp [appendAllNew]
  | cons x xs ih =>
    rw [appendAllNew, List.foldl_cons, ← appendAllNew, ih, mem_appendNew, List.mem_cons]
    tauto

theorem nodup_appendAllNew {acc : List α} (h : acc.Nodup) (xs : List α) :
    (appendAllNew acc xs).Nodup := by
  induction xs generalizing acc with
  | nil => exact h
  | cons x xs ih =>
    rw [appendAllNew, List.foldl_cons, ← appendAllNew]
    exact ih (nodup_appendNew h x)

end ListSet
