import Mathlib.Data.List.Chain

/-!
# Lists Threaded Through a Link Field

Objects that hold a nullable link to the next one, as an intrusive list threads
its elements through a field of their own. A list of objects is linked up to a
last one when the link of each leads to the next and the link of its last
element to `last`: `IsChain` of the link relation over `xs ++ [last]`. A
cycle is a list linked back to its first element.

## Main definitions

* `follow`: Follow the links a given number of times.

## Theorems

* `follow_of_isChain`: Following the links along a chain reaches its
  elements in order.
* `follow_of_cycle`: Following the links around a cycle visits its elements
  in order and then comes back to the first.
* `isChain_link_cons_iff`: A chain of links is the link of its first
  element and the chain of the rest.
* `link_ne_none_of_isChain`: Every element of a chain of links has a link.
* `isChain_link_congr`: A chain of links survives a change of the links
  outside its elements.
-/

namespace Links

variable {α : Type}

/-- Follow `next` from `r` for `n` links, `none` past a null link. -/
def follow (next : α → Option α) (r : α) : Nat → Option α
  | 0 => some r
  | n + 1 => (follow next r n).bind next

/-- Along a chain of links from `x`, the `i`-th link followed from `x` leads
    to the `i`-th element. -/
theorem follow_of_isChain {next : α → Option α} {x : α} {ys : List α}
    (hc : (x :: ys).IsChain fun a b => next a = some b) :
    ∀ (i : Nat) (hi : i < (x :: ys).length), follow next x i = some (x :: ys)[i]
  | 0, _ => rfl
  | i + 1, hi => by
    rw [follow, follow_of_isChain hc i (by omega), Option.bind_some]
    exact hc.getElem i hi

/-- Around a cycle from `x`, the links followed from `x` visit the elements
    in order, and as many links as there are elements lead back to `x`. -/
theorem follow_of_cycle {next : α → Option α} {x : α} {ys : List α}
    (hc : (x :: ys ++ [x]).IsChain fun a b => next a = some b) :
    (∀ (i : Nat) (hi : i < (x :: ys).length), follow next x i = some (x :: ys)[i]) ∧
      follow next x (x :: ys).length = some x := by
  have hfollow := follow_of_isChain hc
  refine ⟨fun i hi => ?_, ?_⟩
  · rw [hfollow i (by simp at hi ⊢; omega)]
    exact congrArg some (List.getElem_append_left hi)
  · rw [hfollow _ (by simp)]
    simp

/-- A chain of links from `x` through `ys` to `last` is the link of `x` to the
    next element, the first of `ys` or `last`, and the chain from there. -/
theorem isChain_link_cons_iff {next : α → Option α} {x last : α} {ys : List α} :
    ((x :: ys) ++ [last]).IsChain (fun a b => next a = some b) ↔
      next x = some (ys.headD last) ∧ (ys ++ [last]).IsChain fun a b => next a = some b := by
  cases ys with
  | nil => simp
  | cons y rest => rw [List.cons_append, List.cons_append, List.isChain_cons_cons]; rfl

/-- Every element of a chain of links has a link. -/
theorem link_ne_none_of_isChain {next : α → Option α} {last : α} {xs : List α}
    (hc : (xs ++ [last]).IsChain fun a b => next a = some b) {x : α} (hx : x ∈ xs) :
    next x ≠ none := by
  induction xs with
  | nil => exact absurd hx List.not_mem_nil
  | cons y ys ih =>
    rw [isChain_link_cons_iff] at hc
    rcases List.mem_cons.1 hx with rfl | hx
    · rw [hc.1]
      exact Option.some_ne_none _
    · exact ih hc.2 hx

/-- A chain of links over `xs ++ [last]` reads the links of the elements of
    `xs` only: links changed elsewhere keep it. -/
theorem isChain_link_congr {next next' : α → Option α} {last : α} {xs : List α}
    (hc : (xs ++ [last]).IsChain fun a b => next a = some b) (h : ∀ x ∈ xs, next' x = next x) :
    (xs ++ [last]).IsChain fun a b => next' a = some b := by
  induction xs with
  | nil => exact .singleton last
  | cons x xs ih =>
    rw [isChain_link_cons_iff] at hc ⊢
    -- the link of `x` is the only one read at the head
    refine ⟨by rw [h x List.mem_cons_self]; exact hc.1, ih hc.2 fun z hz => h z ?_⟩
    exact List.mem_cons_of_mem x hz

end Links
