import ArtRuntime.Verifier.Merge

/-!
# Merging Register Lines

`RegisterLine::MergeRegisters` merges the register line reaching an
instruction along one more edge into the line recorded for it. A line holds
the cache id of each register's type, and `GetRegisterType` reads a type
back with `GetFromId`, as the cache entry at that index. Each register whose
ids differ takes the id of the merge of its two types, and the call reports
whether some register's type changed (`Equals`, by id): the verifier visits
an instruction again while its line changes, and has reached a fixed point
when a merge changes nothing.

Every cache entry is made with its index, truncated to 16 bits, as its id
(`IdsAreIndices`), and every merge keeps that; so a merge that reports no
change leaves every register's id as it was. The truncation matters once
the cache holds 65536 entries: a merge that makes a new type gives it the
id of the entry at index 0, `Undefined`, so the merged register reads back
as `Undefined`, and merging the same incoming line once more turns it into
`Conflict` and reports a change again.

The monitor stacks and `reg_to_lock_depths_`, which `MergeRegisters` also
merges, do not enter its result and are left out.

## Main definitions

* `mergeRegisters`: The register loop of `MergeRegisters`.
* `wideCache`: The cache of a method that has loaded 65524 constants.

## Theorems

* `idsAreIndices_mergeRegisters`: Merging lines keeps every id the index of
  its entry.
* `mergeRegisters_unchanged`: A merge that reports no change leaves the line
  as it was.
* `mergeRegisters_not_absorbed`: Over `wideCache`, merging the same incoming
  line twice reports a change both times.
-/

namespace ArtRuntime

namespace Verifier

open RegTypeCache

variable {K : Type} [DecidableEq K]

/-- The register loop of `RegisterLine::MergeRegisters`, over the ids of the
    line and of the incoming line: whether some register's type changed,
    the merged line, and the cache after the merges. Both lines have the
    method's `num_regs_` registers; `none` is an id past the cache
    (`GetFromId`'s `DCHECK`) or a failed merge. -/
def mergeRegisters (C : Classes K) :
    RegTypeCache K → List UInt16 → List UInt16 → Option (Bool × List UInt16 × RegTypeCache K)
  | cache, [], [] => some (false, [], cache)
  | cache, id :: line, incoming_id :: incoming_line =>
    if id ≠ incoming_id then do
      let incoming_reg_type ← cache.getFromId incoming_id
      let cur_type ← cache.getFromId id
      let (new_type, cache) ← merge C cache cur_type incoming_reg_type
      let (changed, line, cache) ← mergeRegisters C cache line incoming_line
      pure (!cur_type.equals new_type || changed, new_type.id :: line, cache)
    else do
      let (changed, line, cache) ← mergeRegisters C cache line incoming_line
      pure (changed, id :: line, cache)
  | _, _, _ => none

/-! ### One register -/

section

variable {C : Classes K} {cache cache' : RegTypeCache K} {changed : Bool}

/-- A register whose ids agree is kept. -/
theorem mergeRegisters_cons_same {id : UInt16} {line incoming_line line' : List UInt16}
    (h : mergeRegisters C cache (id :: line) (id :: incoming_line) = some (changed, line', cache')) :
    ∃ rest, mergeRegisters C cache line incoming_line = some (changed, rest, cache') ∧
      line' = id :: rest := by
  simp only [mergeRegisters, ne_eq, not_true_eq_false, ↓reduceIte, Option.bind_eq_bind,
    Option.bind_eq_some_iff, Option.pure_def, Option.some.injEq] at h
  rcases h with ⟨⟨changed', rest, cache''⟩, hrest, hres⟩
  simp only [Prod.mk.injEq] at hres
  rcases hres with ⟨rfl, rfl, rfl⟩
  exact ⟨rest, hrest, rfl⟩

/-- A register whose ids differ takes the merge of its two types. -/
theorem mergeRegisters_cons_ne {id incoming_id : UInt16} {line incoming_line line' : List UInt16}
    (hne : id ≠ incoming_id)
    (h : mergeRegisters C cache (id :: line) (incoming_id :: incoming_line) =
      some (changed, line', cache')) :
    ∃ incoming_reg_type cur_type new_type cache₁ changed' rest,
      cache.getFromId incoming_id = some incoming_reg_type ∧ cache.getFromId id = some cur_type ∧
      merge C cache cur_type incoming_reg_type = some (new_type, cache₁) ∧
      mergeRegisters C cache₁ line incoming_line = some (changed', rest, cache') ∧
      changed = (!cur_type.equals new_type || changed') ∧ line' = new_type.id :: rest := by
  simp only [mergeRegisters, ne_eq, hne, not_false_eq_true, ↓reduceIte, Option.bind_eq_bind,
    Option.bind_eq_some_iff, Option.pure_def, Option.some.injEq] at h
  rcases h with ⟨incoming_reg_type, hinc, cur_type, hcur, ⟨new_type, cache₁⟩, hmerge,
    ⟨changed', rest, cache''⟩, hrest, hres⟩
  simp only [Prod.mk.injEq] at hres
  rcases hres with ⟨rfl, rfl, rfl⟩
  exact ⟨incoming_reg_type, cur_type, new_type, cache₁, changed', rest, hinc, hcur, hmerge, hrest,
    rfl, rfl⟩

/-! ### Whole lines -/

/-- Merging lines keeps every id the index of its entry: each merge keeps
    the cache or pushes one entry. -/
theorem idsAreIndices_mergeRegisters {line incoming line' : List UInt16}
    (hwf : cache.IdsAreIndices)
    (h : mergeRegisters C cache line incoming = some (changed, line', cache')) :
    cache'.IdsAreIndices := by
  induction line generalizing cache incoming changed line' with
  | nil =>
    cases incoming with
    | nil =>
      simp only [mergeRegisters, Option.some.injEq, Prod.mk.injEq] at h
      rw [← h.2.2]
      exact hwf
    | cons _ _ => simp only [mergeRegisters, reduceCtorEq] at h
  | cons id line ih =>
    cases incoming with
    | nil => simp only [mergeRegisters, reduceCtorEq] at h
    | cons incoming_id incoming_line =>
      by_cases hid : id = incoming_id
      · subst hid
        rcases mergeRegisters_cons_same h with ⟨rest, hrest, -⟩
        exact ih hwf hrest
      · rcases mergeRegisters_cons_ne hid h with
          ⟨_, _, _, cache₁, _, _, -, -, hmerge, hrest, -, -⟩
        exact ih (hwf.grows (grows_merge hmerge)) hrest

/-- A merge that reports no change leaves every register's id as it was:
    each merged type `Equals` the current one, whose id is the register's. -/
theorem mergeRegisters_unchanged {line incoming line' : List UInt16}
    (hwf : cache.IdsAreIndices)
    (h : mergeRegisters C cache line incoming = some (false, line', cache')) :
    line' = line := by
  induction line generalizing cache incoming line' with
  | nil =>
    cases incoming with
    | nil =>
      simp only [mergeRegisters, Option.some.injEq, Prod.mk.injEq] at h
      exact h.2.1.symm
    | cons _ _ => simp only [mergeRegisters, reduceCtorEq] at h
  | cons id line ih =>
    cases incoming with
    | nil => simp only [mergeRegisters, reduceCtorEq] at h
    | cons incoming_id incoming_line =>
      by_cases hid : id = incoming_id
      · subst hid
        rcases mergeRegisters_cons_same h with ⟨rest, hrest, rfl⟩
        rw [ih hwf hrest]
      · rcases mergeRegisters_cons_ne hid h with
          ⟨_, cur_type, new_type, cache₁, changed', rest, -, hcur, hmerge, hrest, hchanged, rfl⟩
        -- no change: the merged type has the current type's id, and `changed'` is false
        rw [eq_comm, Bool.or_eq_false_iff, Bool.not_eq_eq_eq_not, Bool.not_false] at hchanged
        rcases hchanged with ⟨hequals, rfl⟩
        have hid_new : new_type.id = id := by
          rw [← beq_iff_eq.1 hequals, hwf.id_of_getFromId hcur]
        rw [hid_new, ih (hwf.grows (grows_merge hmerge)) hrest]

end

/-! ### A cache of 65536 entries -/

/-- The cache of a method that has loaded the precise constants `0` to
    `65523`: the twelve primitive types and 65524 constants. -/
def wideCache : RegTypeCache Empty :=
  RegTypeCache.init.loadConstants ((List.range 65524).map Nat.toUInt32) true

theorem wideCache_entries : wideCache.entries = RegTypeCache.init.entries ++
    (((List.range 65524).map Nat.toUInt32).zipIdx 12).map
      fun (v, i) => (⟨i.toUInt16, .preciseConst v⟩ : Entry Empty) :=
  init_loadConstants_range (by decide)

theorem length_wideCache : wideCache.entries.length = 65536 := by
  rw [wideCache_entries, List.length_append, List.length_map, List.length_zipIdx, List.length_map,
    List.length_range]
  rfl

/-- The constant `v` sits at index `12 + v`. -/
theorem getElem?_wideCache {v : Nat} (hv : v < 65524) :
    wideCache.entries[12 + v]? = some ⟨(12 + v).toUInt16, .preciseConst v.toUInt32⟩ := by
  rw [wideCache_entries, List.getElem?_append_right (by simp [RegTypeCache.init, primitiveTypes])]
  simp [RegTypeCache.init, primitiveTypes, hv, Nat.add_comm]

/-- Every entry after the primitives is a precise constant. -/
theorem isPreciseConstant_of_mem_wideCache {e : Entry Empty}
    (he : e ∈ wideCache.entries.drop kNumPrimitives) : e.type.isPreciseConstant = true := by
  rw [wideCache_entries, show kNumPrimitives = (RegTypeCache.init (K := Empty)).entries.length from rfl,
    List.drop_left, List.mem_map] at he
  rcases he with ⟨⟨v, i⟩, -, rfl⟩
  rfl

/-- A search for anything but a precise constant finds nothing. -/
theorem search_wideCache_eq_none {p : RegType Empty → Bool}
    (hp : ∀ t, t.isPreciseConstant = true → p t = false) : wideCache.search p = none := by
  rw [RegTypeCache.search, List.find?_eq_none]
  intro e he
  rw [hp e.type (isPreciseConstant_of_mem_wideCache he)]
  exact Bool.false_ne_true

omit [DecidableEq K] in
/-- A constant the search does not find is pushed. -/
theorem fromCat1Const_of_search_eq_none {cache : RegTypeCache K} {v : UInt32} {precise : Bool}
    (h : cache.search (fun t => t.getClass.isNone && t.isConstant &&
      t.isPreciseConstant == precise && t.constantValue == v.toInt32.toInt) = none) :
    cache.fromCat1Const v precise =
      if precise then cache.push (.preciseConst v) else cache.push (.impreciseConst v) := by
  unfold fromCat1Const
  rw [h]

/-- The cache holds no imprecise constant, so `FromCat1Const(5, false)`
    makes one, with `entries_.size() = 65536` truncated to the id `0`. -/
theorem fromCat1Const_wideCache :
    wideCache.fromCat1Const 5 false =
      (⟨0, .impreciseConst 5⟩, ⟨wideCache.entries ++ [⟨0, .impreciseConst 5⟩]⟩) := by
  have hnone := search_wideCache_eq_none (p := fun t => t.getClass.isNone && t.isConstant &&
      t.isPreciseConstant == false && t.constantValue == (5 : UInt32).toInt32.toInt)
    (fun t ht => by simp only [ht, Bool.true_beq, Bool.and_false, Bool.false_and])
  have hid : (65536 : Nat).toUInt16 = 0 := by decide
  rw [fromCat1Const_of_search_eq_none hnone, if_neg Bool.false_ne_true, RegTypeCache.push,
    length_wideCache, hid]

/-- Two precise constants, `5` and `3`, merge to the imprecise `5`, made
    with id `0`. -/
theorem merge_wideCache :
    merge Classes.empty wideCache ⟨17, .preciseConst 5⟩ ⟨15, .preciseConst 3⟩ =
      some (⟨0, .impreciseConst 5⟩, ⟨wideCache.entries ++ [⟨0, .impreciseConst 5⟩]⟩) := by
  have hval5 : (RegType.preciseConst (K := Empty) 5).constantValue = 5 := by decide
  have hval3 : (RegType.preciseConst (K := Empty) 3).constantValue = 3 := by decide
  simp only [merge, mergeConstants, RegType.isConflict, RegType.isUndefined, RegType.isConstant,
    RegType.isPreciseConstant, RegType.isImpreciseConstant, RegType.constantBits, hval5, hval3,
    Bool.or_false, Bool.false_eq_true, Bool.true_and, Bool.not_true, ↓reduceIte]
  rw [if_pos (by decide), if_pos (by decide), fromCat1Const_wideCache]

/-- Register `v0` holds the precise constant `5` (id `17`) and the incoming
    line has the precise constant `3` (id `15`). The first merge gives `v0`
    the imprecise `5`, made with id `0`; read back, id `0` is `Undefined`, so
    the second merge of the same incoming line turns `v0` into `Conflict`
    (id `1`) and reports a change again. -/
theorem mergeRegisters_not_absorbed :
    mergeRegisters Classes.empty wideCache [17] [15] =
      some (true, [0], ⟨wideCache.entries ++ [⟨0, .impreciseConst 5⟩]⟩) ∧
    mergeRegisters Classes.empty ⟨wideCache.entries ++ [⟨0, .impreciseConst 5⟩]⟩ [0] [15] =
      some (true, [1], ⟨wideCache.entries ++ [⟨0, .impreciseConst 5⟩]⟩) := by
  have h15 : wideCache.getFromId 15 = some ⟨15, .preciseConst 3⟩ := getElem?_wideCache (v := 3) (by decide)
  have h17 : wideCache.getFromId 17 = some ⟨17, .preciseConst 5⟩ := getElem?_wideCache (v := 5) (by decide)
  have hlt : (15 : UInt16).toNat < wideCache.entries.length := by
    rw [length_wideCache]
    decide
  -- after the push, id `15` still reads the constant `3` and id `0` reads `Undefined`
  have h15' : RegTypeCache.getFromId ⟨wideCache.entries ++ [⟨0, .impreciseConst 5⟩]⟩ 15 =
      some ⟨15, .preciseConst 3⟩ := by
    rw [RegTypeCache.getFromId, List.getElem?_append_left hlt]
    exact h15
  have h0 : RegTypeCache.getFromId ⟨wideCache.entries ++ [⟨0, .impreciseConst 5⟩]⟩ 0 =
      some ⟨0, .undefined⟩ := by
    rw [RegTypeCache.getFromId, List.getElem?_append_left (by rw [length_wideCache]; decide),
      wideCache_entries, List.getElem?_append_left (by decide)]
    rfl
  constructor
  · rw [mergeRegisters, if_pos (by decide)]
    simp only [Option.bind_eq_bind, h15, h17, merge_wideCache, Option.bind_some, mergeRegisters,
      Option.pure_def]
    simp [Entry.equals]
  · rw [mergeRegisters, if_pos (by decide)]
    simp only [Option.bind_eq_bind, h15', h0, Option.bind_some]
    simp only [merge, RegType.isConflict, RegType.isUndefined, Bool.true_or, ↓reduceIte,
      Bool.false_eq_true, Option.bind_some, mergeRegisters, Option.pure_def]
    simp [Entry.equals, RegTypeCache.conflict, RegTypeCache.primitive]

end Verifier

end ArtRuntime
