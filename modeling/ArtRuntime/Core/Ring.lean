import ArtRuntime.Core.Probe

/-!
# Rings of Slots

A queue kept in a fixed array of `cap` slots: its elements are the `count`
slots from a `tail` slot on, stepping modulo `cap`. A push writes the slot
after the last one, a pop reads the `tail` slot and moves `tail` on by one.
Both leave the other queued slots alone, and the queue they leave is read off
the array by the same window.

## Main definitions

* `window`: The `count` slots from `tail`, in order.

## Theorems

* `window_congr`: A window reads only its own slots.
* `map_window`: A window of images is the image of the window.
* `mem_window`: The elements of a window are its slots.
* `slot_ne`: The slot after a window that leaves room is none of its slots.
* `window_push`: Writing the slot after a window adds it at the end.
* `window_pop`: A window is its first slot and the window after it.
-/

namespace Ring

open LinearProbe

variable {α : Type}

/-- The `count` slots of a ring of `cap` slots from `tail` on, in order. -/
def window (slots : Nat → α) (cap tail : Nat) : Nat → List α
  | 0 => []
  | count + 1 => window slots cap tail count ++ [slots ((tail + count) % cap)]

@[simp]
theorem length_window (slots : Nat → α) (cap tail count : Nat) :
    (window slots cap tail count).length = count := by
  induction count with
  | zero => rfl
  | succ count ih => rw [window, List.length_append, ih, List.length_singleton]

/-- A window reads only its own slots. -/
theorem window_congr {slots slots' : Nat → α} {cap tail count : Nat}
    (h : ∀ k < count, slots' ((tail + k) % cap) = slots ((tail + k) % cap)) :
    window slots' cap tail count = window slots cap tail count := by
  induction count with
  | zero => rfl
  | succ count ih =>
    rw [window, window, ih fun k hk => h k (by omega), h count (by omega)]

/-- A window of images is the image of the window. -/
theorem map_window {β : Type} (f : α → β) (slots : Nat → α) (cap tail count : Nat) :
    (window slots cap tail count).map f = window (fun i => f (slots i)) cap tail count := by
  induction count with
  | zero => rfl
  | succ count ih => rw [window, List.map_append, ih, window, List.map_singleton]

/-- The elements of a window are what its slots hold. -/
theorem mem_window {slots : Nat → α} {cap tail count : Nat} {x : α} :
    x ∈ window slots cap tail count ↔ ∃ k < count, slots ((tail + k) % cap) = x := by
  induction count with
  | zero => simp [window]
  | succ count ih =>
    rw [window, List.mem_append, ih, List.mem_singleton]
    constructor
    · rintro (⟨k, hk, hx⟩ | rfl)
      · exact ⟨k, by omega, hx⟩
      · exact ⟨count, by omega, rfl⟩
    · rintro ⟨k, hk, hx⟩
      by_cases hkc : k < count
      · exact .inl ⟨k, hkc, hx⟩
      · rw [show k = count by omega] at hx
        exact .inr hx.symm

/-- The slot after a window that leaves room is none of its slots. -/
theorem slot_ne {cap tail count k : Nat} (hc : count < cap) (hk : k < count) :
    (tail + k) % cap ≠ (tail + count) % cap := fun h =>
  absurd (add_mod_inj (by omega) hc h) (by omega)

/-- Writing the slot after a window that leaves room adds it at the end. -/
theorem window_push {slots slots' : Nat → α} {cap tail count : Nat} (hc : count < cap)
    (h : ∀ i, i ≠ (tail + count) % cap → slots' i = slots i) :
    window slots' cap tail (count + 1) =
      window slots cap tail count ++ [slots' ((tail + count) % cap)] := by
  rw [window, window_congr fun k hk => h _ (slot_ne hc hk)]

/-- A window is its first slot and the window of the rest after it. -/
theorem window_pop (slots : Nat → α) (cap tail count : Nat) :
    window slots cap tail (count + 1) = slots (tail % cap) :: window slots cap ((tail + 1) % cap) count := by
  induction count with
  | zero => rfl
  | succ count ih =>
    rw [window, ih, window, List.cons_append, succ_mod_add_mod]

/-- The slot a pop frees is none of the slots of the window it leaves. -/
theorem slot_ne_of_pop {cap tail count k : Nat} (hc : count < cap) (hk : k < count) :
    ((tail + 1) % cap + k) % cap ≠ tail % cap := by
  rw [succ_mod_add_mod]
  intro h
  have h' : (tail + (k + 1)) % cap = (tail + 0) % cap := by rw [Nat.add_zero]; exact h
  exact absurd (add_mod_inj (by omega) (by omega) h') (by omega)

end Ring
