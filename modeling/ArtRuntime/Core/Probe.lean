import Mathlib

/-!
# Linear Probing

Open addressing with linear probing, over an arbitrary key type and hash.

A table of `n` slots is searched from a home slot, stepping to the next slot
modulo `n` until a slot passes a test. Insertion searches for a free slot and
lookup searches for the slot holding the key, and the two agree only because
of an invariant that insertion keeps: every slot on the way from a key's home
slot to the slot that holds it is occupied. Slots never become free again, so
an occupied path stays occupied, and a lookup that walks it skips only slots
holding other keys.

Searches are written with fuel. A search of `n` steps from a home slot below
`n` visits every slot exactly once, so a search that fails with `n` steps of
fuel is one the unfuelled loop of the code would never leave
(`probe_eq_none_iff`). The model of a `while` loop over the slots can
therefore take `n` as its fuel without changing what it computes.

## Main definitions

* `probe`: The first slot passing a test, walking from a home slot.
* `PathsOccupied`: Every key's path from its home slot is occupied.
* `KeysDistinct`: No key is stored in two occupied slots.

## Theorems

* `probe_eq_some_iff`: A search stops at the first slot that passes.
* `probe_eq_none_iff`: A search of `n` steps fails only if no slot passes.
* `probe_congr`: A search depends only on the test at slots below `n`.
* `pathsOccupied_insert`: Inserting into the first free slot keeps the
  invariant.
* `probe_key`: Lookup on an occupied path finds the key's slot.
-/

namespace LinearProbe

section Probe

variable (p : Nat → Bool) (n : Nat)

/-- The first slot from `idx` on, stepping modulo `n`, that passes `p`,
    within `fuel` steps. -/
def probe : Nat → Nat → Option Nat
  | 0, _ => none
  | fuel + 1, idx => if p idx then some idx else probe fuel ((idx + 1) % n)

@[simp] theorem probe_zero (idx : Nat) : probe p n 0 idx = none := rfl

theorem probe_succ (fuel idx : Nat) :
    probe p n (fuel + 1) idx = if p idx then some idx else probe p n fuel ((idx + 1) % n) :=
  rfl

variable {p n}

/-- A search only looks at slots below `n`, so two tests that agree there
    search alike. -/
theorem probe_congr {q : Nat → Bool} (hpq : ∀ j < n, p j = q j) (fuel : Nat) {idx : Nat}
    (hidx : idx < n) : probe p n fuel idx = probe q n fuel idx := by
  induction fuel generalizing idx with
  | zero => rfl
  | succ fuel ih =>
      rw [probe_succ, probe_succ, hpq idx hidx, ih (Nat.mod_lt _ (by omega))]

/-- Stepping once from `idx` and then `i` more is stepping `i + 1` from `idx`. -/
theorem succ_mod_add_mod (idx i : Nat) : ((idx + 1) % n + i) % n = (idx + (i + 1)) % n := by
  rw [Nat.add_mod, Nat.mod_mod, ← Nat.add_mod]
  congr 1
  omega

/-- A search stops at the first slot, counted from `idx`, that passes. -/
theorem probe_eq_some_iff (fuel : Nat) {idx j : Nat} (hidx : idx < n) :
    probe p n fuel idx = some j ↔
      ∃ i < fuel, j = (idx + i) % n ∧ p j ∧ ∀ i' < i, p ((idx + i') % n) = false := by
  induction fuel generalizing idx with
  | zero => simp
  | succ fuel ih =>
      have hpos : 0 < n := by omega
      rw [probe_succ]
      by_cases hp : p idx
      · -- The home slot passes: the search stops there, at distance zero.
        rw [if_pos hp]
        constructor
        · rintro ⟨⟩
          exact ⟨0, by omega, by simp [Nat.mod_eq_of_lt hidx], hp, by simp⟩
        · rintro ⟨i, -, rfl, -, hfirst⟩
          rcases Nat.eq_zero_or_pos i with rfl | hi
          · simp [Nat.mod_eq_of_lt hidx]
          · have := hfirst 0 hi
            simp [Nat.mod_eq_of_lt hidx, hp] at this
      · -- The home slot fails: the rest of the search starts one slot on.
        rw [if_neg hp, ih (Nat.mod_lt _ hpos)]
        constructor
        · rintro ⟨i, hi, rfl, hpj, hfirst⟩
          refine ⟨i + 1, by omega, succ_mod_add_mod idx i, hpj, ?_⟩
          intro i' hi'
          rcases i' with _ | i'
          · simpa [Nat.mod_eq_of_lt hidx] using hp
          · rw [← succ_mod_add_mod]
            exact hfirst i' (by omega)
        · rintro ⟨i, hi, rfl, hpj, hfirst⟩
          rcases i with _ | i
          · simp [Nat.mod_eq_of_lt hidx, hp] at hpj
          · refine ⟨i, by omega, (succ_mod_add_mod idx i).symm, hpj, ?_⟩
            intro i' hi'
            rw [succ_mod_add_mod]
            exact hfirst (i' + 1) (by omega)

/-- Two slots at distances below `n` from one home slot are the same slot
    only at the same distance. -/
theorem add_mod_inj {a i i' : Nat} (hi : i < n) (hi' : i' < n)
    (h : (a + i) % n = (a + i') % n) : i = i' := by
  have hmod : i % n = i' % n := Nat.ModEq.add_left_cancel' a h
  rwa [Nat.mod_eq_of_lt hi, Nat.mod_eq_of_lt hi'] at hmod

/-- Every slot below `n` is at some distance below `n` from a home slot
    below `n`. -/
theorem exists_dist {a j : Nat} (ha : a < n) (hj : j < n) : ∃ i < n, j = (a + i) % n := by
  refine ⟨(j + n - a) % n, Nat.mod_lt _ (by omega), ?_⟩
  rw [Nat.add_mod_mod]
  by_cases hle : a ≤ j
  · rw [show a + (j + n - a) = j + n by omega, Nat.add_mod_right, Nat.mod_eq_of_lt hj]
  · rw [show a + (j + n - a) = j + n by omega, Nat.add_mod_right, Nat.mod_eq_of_lt hj]

/-- A search of `n` steps from a slot below `n` fails only if no slot below
    `n` passes; the loop it models would then never stop. -/
theorem probe_eq_none_iff {idx : Nat} (hidx : idx < n) :
    probe p n n idx = none ↔ ∀ j < n, p j = false := by
  constructor
  · intro hnone j hj
    by_contra hpj
    -- Some slot passes, so the least distance at which one passes is a stop.
    have hex : ∃ i, i < n ∧ p ((idx + i) % n) = true := by
      obtain ⟨i, hi, rfl⟩ := exists_dist hidx hj
      exact ⟨i, hi, by simpa using hpj⟩
    classical
    let i := Nat.find hex
    have hi : i < n ∧ p ((idx + i) % n) = true := Nat.find_spec hex
    have hfirst : ∀ i' < i, p ((idx + i') % n) = false := fun i' hi' => by
      have := Nat.find_min hex hi'
      simp only [not_and, Bool.not_eq_true] at this
      exact this (by omega)
    have hsome := (probe_eq_some_iff n hidx).mpr ⟨i, hi.1, rfl, hi.2, hfirst⟩
    rw [hnone] at hsome
    cases hsome
  · intro hall
    cases hprobe : probe p n n idx with
    | none => rfl
    | some j =>
        obtain ⟨i, hi, rfl, hpj, -⟩ := (probe_eq_some_iff n hidx).mp hprobe
        rw [hall _ (Nat.mod_lt _ (by omega))] at hpj
        cases hpj

end Probe

section Table

variable {K : Type} (hash : K → Nat) (n : Nat)

/-- The invariant of a linearly probed table: each occupied slot is reached
    from its key's home slot through occupied slots only. -/
def PathsOccupied (occ : Nat → Bool) (key : Nat → K) : Prop :=
  ∀ j < n, occ j = true → ∃ i < n, j = (hash (key j) % n + i) % n ∧
    ∀ i' < i, occ ((hash (key j) % n + i') % n) = true

/-- No key is held by two occupied slots. -/
def KeysDistinct (occ : Nat → Bool) (key : Nat → K) : Prop :=
  ∀ j₁ < n, ∀ j₂ < n, occ j₁ = true → occ j₂ = true → key j₁ = key j₂ → j₁ = j₂

variable {hash n}

/-- Inserting a key into the first free slot on its path keeps every path
    occupied: old paths only gain occupied slots, and the new key's path is
    the run of occupied slots the search skipped. -/
theorem pathsOccupied_insert {occ : Nat → Bool} {key : Nat → K} {k : K} {j : Nat}
    (hinv : PathsOccupied hash n occ key)
    (hj : probe (fun x => !occ x) n n (hash k % n) = some j) :
    PathsOccupied hash n (Function.update occ j true) (Function.update key j k) := by
  have hpos : 0 < n := by
    rcases Nat.eq_zero_or_pos n with rfl | h
    · simp [probe] at hj
    · exact h
  obtain ⟨i, hi, hjeq, -, hfirst⟩ :=
    (probe_eq_some_iff n (Nat.mod_lt _ hpos)).mp hj
  intro j' hj' hocc'
  by_cases hjj : j' = j
  · -- The new slot: its path is the run of occupied slots the search passed.
    subst hjj
    refine ⟨i, hi, by simpa using hjeq, fun i' hi' => ?_⟩
    have hfree := hfirst i' hi'
    simp only [Bool.not_eq_false'] at hfree
    rw [Function.update_self, Function.update_apply]
    split
    · rfl
    · exact hfree
  · -- An old slot: the same key, and a path that only gained occupants.
    rw [Function.update_of_ne hjj] at hocc'
    obtain ⟨i, hi, hj'eq, hpath⟩ := hinv j' hj' hocc'
    refine ⟨i, hi, by rwa [Function.update_of_ne hjj], fun i' hi' => ?_⟩
    rw [Function.update_of_ne hjj]
    rw [Function.update_apply]
    split
    · rfl
    · exact hpath i' hi'

/-- Inserting a key that no occupied slot holds keeps the keys distinct. -/
theorem keysDistinct_insert {occ : Nat → Bool} {key : Nat → K} {k : K} {j : Nat}
    (hdist : KeysDistinct n occ key) (hfree : occ j = false)
    (hnew : ∀ j' < n, occ j' = true → key j' ≠ k) :
    KeysDistinct n (Function.update occ j true) (Function.update key j k) := by
  intro j₁ hj₁ j₂ hj₂ h₁ h₂ hkey
  by_cases e₁ : j₁ = j <;> by_cases e₂ : j₂ = j
  · rw [e₁, e₂]
  · subst e₁
    rw [Function.update_of_ne e₂] at h₂ hkey
    rw [Function.update_self] at hkey
    exact absurd hkey.symm (hnew j₂ hj₂ h₂)
  · subst e₂
    rw [Function.update_of_ne e₁] at h₁ hkey
    rw [Function.update_self] at hkey
    exact absurd hkey (hnew j₁ hj₁ h₁)
  · rw [Function.update_of_ne e₁] at h₁ hkey
    rw [Function.update_of_ne e₂] at h₂ hkey
    exact hdist j₁ hj₁ j₂ hj₂ h₁ h₂ hkey

/-- Lookup along an occupied path: walking from a key's home slot, every slot
    before the key's own holds another key, so the first slot whose key
    matches is the key's own. The lookup may read slot contents through any
    function that agrees with the table on occupied slots. -/
theorem probe_key [DecidableEq K] {occ : Nat → Bool} {key : Nat → K} (stored : Nat → K)
    (hinv : PathsOccupied hash n occ key) (hdist : KeysDistinct n occ key)
    (hstored : ∀ j < n, occ j = true → stored j = key j)
    {j : Nat} (hj : j < n) (hocc : occ j = true) :
    probe (fun x => decide (stored x = key j)) n n (hash (key j) % n) = some j := by
  obtain ⟨i, hi, hjeq, hpath⟩ := hinv j hj hocc
  have hpos : 0 < n := by omega
  rw [probe_eq_some_iff n (Nat.mod_lt _ hpos)]
  refine ⟨i, hi, hjeq, by simp [hstored j hj hocc], fun i' hi' => ?_⟩
  -- An earlier slot on the path is occupied, and not by this key.
  have hlt : (hash (key j) % n + i') % n < n := Nat.mod_lt _ hpos
  have hocc' := hpath i' hi'
  rw [decide_eq_false_iff_not, hstored _ hlt hocc']
  intro hsame
  have hsame_slot : (hash (key j) % n + i') % n = (hash (key j) % n + i) % n :=
    (hdist _ hlt j hj hocc' hocc hsame).trans hjeq
  exact absurd (add_mod_inj (by omega) hi hsame_slot) (by omega)

end Table

end LinearProbe
