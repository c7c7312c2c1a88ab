import ArtRuntime.Verifier.RegTypeCache

/-!
# Merging Register Types

`RegType::Merge` gives the type of a register at a control-flow join from
the types it has on two incoming paths. It is a case analysis in a fixed
order: conflict and undefined, two 32-bit constants (by sign and by the
smallest of byte, short and int that holds both), two halves of 64-bit
constants (their bits or-ed), two integral types, the float, long and double
families, and references (null, `Object`, unresolved, uninitialized, and
otherwise the join of the two classes).

The float, long and double case returns `SelectNonConstant`, which keeps the
first type unless it is a 32-bit constant. A half of a 64-bit constant is not
a 32-bit constant (`IsConstant` is false for it), so for such a half and a
long or double half the case keeps whichever comes first. The result then
depends on the order of the arguments, and a merge of a constant half with a
double half stays the constant, which a long half accepts.

## Main definitions

* `selectNonConstant`: `SelectNonConstant`.
* `mergeConstants`, `mergeIntegral`, `mergeReferences`: The cases of `Merge`.
* `Classes.classJoin`: `RegType::ClassJoin`.
* `merge`: `RegType::Merge`.

## Theorems

* `grows_merge`: A merge keeps the cache or pushes one entry.
* `merge_wide_half`: A constant half merged with a long or double half is
  the argument that comes first.
* `merge_wide_half_order`: The two orders of such a merge differ.
* `merge_constLo_doubleLo_accepts_long`: The merge of a constant low half
  and a double low half is accepted where a long is expected, and the
  double alone is not.
-/

namespace ArtRuntime

namespace Verifier

variable {K : Type} [DecidableEq K]

/-! ### The class join -/

namespace Classes

/-- `GetSuperClass` taken `n` times. -/
def ascend (C : Classes K) : Nat → K → Option K
  | 0, k => some k
  | n + 1, k => (C.superClass k).bind (C.ascend n)

/-- The last loop of `ClassJoin`, `while (s != t)`: both classes one level
    up at a time; `fuel` bounds the number of rounds. -/
def walkUp (C : Classes K) : Nat → K → K → Option K
  | 0, s, t => if s = t then some s else none
  | fuel + 1, s, t =>
      if s = t then some s
      else do
        let s' ← C.superClass s
        let t' ← C.superClass t
        C.walkUp fuel s' t'

/-- The class-hierarchy case of `ClassJoin`: the deeper class is brought up
    to the other's depth, and then both go up together. -/
def commonSuperClass (C : Classes K) (s t : K) : Option K :=
  let s_depth := C.depth s
  let t_depth := C.depth t
  if s_depth > t_depth then do
    let s' ← C.ascend (s_depth - t_depth) s
    C.walkUp t_depth s' t
  else do
    let t' ← C.ascend (t_depth - s_depth) t
    C.walkUp s_depth s t'

/-- `RegType::ClassJoin`: the least common superclass, with the join of
    two reference arrays the array of the join of their components. Each
    recursive call strips one array dimension; `fuel` bounds them. `none` is
    a `NULL` class the source would dereference. -/
def classJoin (C : Classes K) : Nat → K → K → Option K
  | 0, _, _ => none
  | fuel + 1, s, t =>
      if s = t then some s
      else if C.isAssignableFrom s t then some s
      else if C.isAssignableFrom t s then some t
      else if C.isArrayClass s && C.isArrayClass t then
        match C.componentType s, C.componentType t with
        | some s_ct, some t_ct =>
            -- a primitive array's only common parent with another array is `Object`
            if C.isPrimitive s_ct || C.isPrimitive t_ct then C.superClass s
            else do
              let common_elem ← C.classJoin fuel s_ct t_ct
              C.findClass ("[" ++ C.descriptor common_elem)
        | _, _ => none
      else C.commonSuperClass s t

end Classes

/-! ### The cases of `Merge` -/

/-- `SelectNonConstant`: the first type unless it is a 32-bit constant. -/
def selectNonConstant (a b : Entry K) : Entry K :=
  if a.type.isConstant then b else a

/-- The two-constants case of `Merge`: the larger of two non-negative
    values, the smaller of two negative ones (made imprecise), and for a
    negative and a non-negative value the representative of the smallest of
    byte, short and int that holds both. -/
def mergeConstants (cache : RegTypeCache K) (a b : Entry K) : Entry K × RegTypeCache K :=
  let val1 := a.type.constantValue
  let val2 := b.type.constantValue
  let keepFirst :=
    if !a.type.isPreciseConstant then (a, cache) else cache.fromCat1Const a.type.constantBits false
  let keepSecond :=
    if !b.type.isPreciseConstant then (b, cache) else cache.fromCat1Const b.type.constantBits false
  if 0 ≤ val1 ∧ 0 ≤ val2 then
    if val1 ≥ val2 then keepFirst else keepSecond
  else if val1 < 0 ∧ val2 < 0 then
    if val1 ≤ val2 then keepFirst else keepSecond
  else if a.type.isConstantByte then
    if b.type.isConstantByte then cache.byteConstant
    else if b.type.isConstantShort then cache.shortConstant
    else cache.intConstant
  else if a.type.isConstantShort then
    if b.type.isConstantShort then cache.shortConstant else cache.intConstant
  else cache.intConstant

/-- The two-integral-types case of `Merge`: the narrowest of boolean, byte,
    short and char that both are, else int. -/
def mergeIntegral (a b : RegType K) : Entry K :=
  if a.isBooleanTypes && b.isBooleanTypes then RegTypeCache.boolean
  else if a.isByteTypes && b.isByteTypes then RegTypeCache.byte
  else if a.isShortTypes && b.isShortTypes then RegTypeCache.short
  else if a.isCharTypes && b.isCharTypes then RegTypeCache.char
  else RegTypeCache.integer

/-- The two-references case of `Merge`. The class join is given one round
    per character of the first class's descriptor, more than its array
    dimensions. -/
def mergeReferences (C : Classes K) (cache : RegTypeCache K) (this incoming_type : Entry K) :
    Option (Entry K × RegTypeCache K) :=
  let a := this.type
  let b := incoming_type.type
  if a.isZero || b.isZero then some (selectNonConstant this incoming_type, cache)
  else if a.isJavaLangObject C || b.isJavaLangObject C then some (cache.javaLangObject C false)
  else if a.isUnresolvedTypes || b.isUnresolvedTypes then
    some (cache.fromUnresolvedMerge this incoming_type)
  else if a.isUninitializedTypes || b.isUninitializedTypes then
    some (RegTypeCache.conflict, cache)
  else do
    let c1 ← a.getClass
    let c2 ← b.getClass
    let join_class ← C.classJoin ((C.descriptor c1).length + 1) c1 c2
    if c1 = join_class ∧ !a.isPreciseReference then some (this, cache)
    else if c2 = join_class ∧ !b.isPreciseReference then some (incoming_type, cache)
    else some (cache.fromClass C (C.descriptor join_class) join_class false)

/-- `RegType::Merge` of `this` with `incoming_type`: the type at the join,
    and the cache after it. `none` is a failed `DCHECK` or a `NULL` class in
    the reference case. -/
def merge (C : Classes K) (cache : RegTypeCache K) (this incoming_type : Entry K) :
    Option (Entry K × RegTypeCache K) :=
  let a := this.type
  let b := incoming_type.type
  if a.isConflict then some (this, cache)
  else if b.isConflict then some (incoming_type, cache)
  else if a.isUndefined || b.isUndefined then some (RegTypeCache.conflict, cache)
  else if a.isConstant && b.isConstant then some (mergeConstants cache this incoming_type)
  else if a.isConstantLo && b.isConstantLo then
    some (cache.fromCat2ConstLo (a.constantBits ||| b.constantBits) false)
  else if a.isConstantHi && b.isConstantHi then
    some (cache.fromCat2ConstHi (a.constantBits ||| b.constantBits) false)
  else if a.isIntegralTypes && b.isIntegralTypes then some (mergeIntegral a b, cache)
  else if (a.isFloatTypes && b.isFloatTypes) || (a.isLongTypes && b.isLongTypes) ||
      (a.isLongHighTypes && b.isLongHighTypes) || (a.isDoubleTypes && b.isDoubleTypes) ||
      (a.isDoubleHighTypes && b.isDoubleHighTypes) then
    some (selectNonConstant this incoming_type, cache)
  else if a.isReferenceTypes && b.isReferenceTypes then
    mergeReferences C cache this incoming_type
  else some (RegTypeCache.conflict, cache)

/-! ### The cache a merge leaves -/

open RegTypeCache

omit [DecidableEq K] in
theorem grows_mergeConstants (cache : RegTypeCache K) (a b : Entry K) :
    cache.Grows (mergeConstants cache a b).2 := by
  unfold mergeConstants
  dsimp only
  -- each case keeps the cache or makes one imprecise constant
  split_ifs
  all_goals first
    | exact Grows.refl cache
    | exact grows_fromCat1Const _ _ _

theorem grows_mergeReferences {C : Classes K} {cache cache' : RegTypeCache K} {a b e : Entry K}
    (h : mergeReferences C cache a b = some (e, cache')) : cache.Grows cache' := by
  unfold mergeReferences at h
  dsimp only at h
  split_ifs at h
  · exact Grows.of_some h (Grows.refl cache)
  · exact Grows.of_some h (grows_from _ _ _ _)
  · exact Grows.of_some h (grows_fromUnresolvedMerge _ _ _)
  · exact Grows.of_some h (Grows.refl cache)
  · -- the class join: one of the two types, or the join's type from `FromClass`
    simp only [Option.bind_eq_bind, Option.bind_eq_some_iff] at h
    rcases h with ⟨c1, -, c2, -, join_class, -, h⟩
    split_ifs at h
    · exact Grows.of_some h (Grows.refl cache)
    · exact Grows.of_some h (Grows.refl cache)
    · exact Grows.of_some h (grows_fromClass _ _ _ _ _)

/-- A merge keeps the cache or pushes one entry. -/
theorem grows_merge {C : Classes K} {cache cache' : RegTypeCache K} {a b e : Entry K}
    (h : merge C cache a b = some (e, cache')) : cache.Grows cache' := by
  unfold merge at h
  dsimp only at h
  split_ifs at h
  -- the cases in the order of `Merge`; the last but one is the reference case
  all_goals first
    | exact Grows.of_some h (Grows.refl cache)
    | exact Grows.of_some h (grows_mergeConstants cache a b)
    | exact Grows.of_some h (grows_fromCat2ConstLo _ _ _)
    | exact Grows.of_some h (grows_fromCat2ConstHi _ _ _)
    | exact grows_mergeReferences h

/-! ### Halves of 64-bit constants -/

/-- A half of a 64-bit constant together with a long or double half of the
    same position. -/
def WideHalfPair (c t : RegType K) : Prop :=
  (c.isConstantLo = true ∧ (t = .longLo ∨ t = .doubleLo)) ∨
    (c.isConstantHi = true ∧ (t = .longHi ∨ t = .doubleHi))

/-- Both orders of a merge of a constant half with a long or double half
    reach the float, long and double case, where `SelectNonConstant` keeps
    the first argument: neither is a 32-bit constant. -/
theorem merge_wide_half (C : Classes K) (cache : RegTypeCache K) (c t : Entry K)
    (h : WideHalfPair c.type t.type) :
    merge C cache c t = some (c, cache) ∧ merge C cache t c = some (t, cache) := by
  rcases h with ⟨hc, ht⟩ | ⟨hc, ht⟩
  · -- low halves: the long case (long) or the double case (double)
    obtain ⟨v, hv | hv⟩ := RegType.isConstantLo_iff.mp hc <;> rcases ht with ht | ht <;>
      simp [merge, selectNonConstant, hv, ht]
  · -- high halves: the long-high case or the double-high case
    obtain ⟨v, hv | hv⟩ := RegType.isConstantHi_iff.mp hc <;> rcases ht with ht | ht <;>
      simp [merge, selectNonConstant, hv, ht]

/-- The two orders of such a merge give different types when the two
    arguments are different entries: the type a register gets at a join
    depends on the order in which the work list reaches it. -/
theorem merge_wide_half_order (C : Classes K) (cache : RegTypeCache K) (c t : Entry K)
    (h : WideHalfPair c.type t.type) (hne : c.id ≠ t.id) :
    merge C cache c t = some (c, cache) ∧ merge C cache t c = some (t, cache) ∧
      (merge C cache c t).map (·.1.id) ≠ (merge C cache t c).map (·.1.id) := by
  obtain ⟨hct, htc⟩ := merge_wide_half C cache c t h
  refine ⟨hct, htc, ?_⟩
  rw [hct, htc]
  simpa using hne

theorem merge_wide_half_order_at_init :
    WideHalfPair (RegType.preciseConstLo (K := Empty) 0) RegTypeCache.longLo.type ∧
      (12 : UInt16) ≠ (RegTypeCache.longLo : Entry Empty).id ∧
      merge Classes.empty ⟨RegTypeCache.init.entries ++ [⟨12, .preciseConstLo 0⟩]⟩
          ⟨12, .preciseConstLo 0⟩ RegTypeCache.longLo =
        some (⟨12, .preciseConstLo 0⟩, ⟨RegTypeCache.init.entries ++ [⟨12, .preciseConstLo 0⟩]⟩) ∧
      merge Classes.empty ⟨RegTypeCache.init.entries ++ [⟨12, .preciseConstLo 0⟩]⟩
          RegTypeCache.longLo ⟨12, .preciseConstLo 0⟩ =
        some (RegTypeCache.longLo, ⟨RegTypeCache.init.entries ++ [⟨12, .preciseConstLo 0⟩]⟩) ∧
      (merge Classes.empty ⟨RegTypeCache.init.entries ++ [⟨12, .preciseConstLo 0⟩]⟩
          ⟨12, .preciseConstLo 0⟩ RegTypeCache.longLo).map (·.1.id) ≠
        (merge Classes.empty ⟨RegTypeCache.init.entries ++ [⟨12, .preciseConstLo 0⟩]⟩
          RegTypeCache.longLo ⟨12, .preciseConstLo 0⟩).map (·.1.id) := by
  have h : WideHalfPair (RegType.preciseConstLo (K := Empty) 0) RegTypeCache.longLo.type :=
    Or.inl ⟨rfl, Or.inl rfl⟩
  have hne : (12 : UInt16) ≠ (RegTypeCache.longLo : Entry Empty).id := by decide
  exact ⟨h, hne, merge_wide_half_order Classes.empty _ ⟨12, .preciseConstLo 0⟩ _ h hne⟩

/-- A constant low half merged with a double low half stays the constant,
    and a long low half accepts it, though it does not accept the double:
    the merged type admits a use that one incoming path rejects. -/
theorem merge_constLo_doubleLo_accepts_long (C : Classes K) (cache : RegTypeCache K)
    (c d t : Entry K) (hc : c.type.isConstantLo = true) (hd : d.type = .doubleLo)
    (ht : t.type = .longLo) (htd : t.id ≠ d.id) :
    merge C cache c d = some (c, cache) ∧ isAssignableFrom C t c = some true ∧
      isAssignableFrom C t d = some false := by
  refine ⟨(merge_wide_half C cache c d (Or.inl ⟨hc, Or.inr hd⟩)).1, ?_, ?_⟩
  · -- a long accepts every constant low half (`IsLongTypes`)
    obtain ⟨v, hv | hv⟩ := RegType.isConstantLo_iff.mp hc <;>
      simp [isAssignableFrom, assignableFrom, Entry.equals, ht, hv]
  · simp [isAssignableFrom, assignableFrom, Entry.equals, ht, hd, htd]

theorem merge_constLo_doubleLo_accepts_long_at_init :
    (RegType.preciseConstLo (K := Empty) 0).isConstantLo = true ∧
      RegTypeCache.doubleLo.type = (RegType.doubleLo : RegType Empty) ∧
      RegTypeCache.longLo.type = (RegType.longLo : RegType Empty) ∧
      (RegTypeCache.longLo : Entry Empty).id ≠ (RegTypeCache.doubleLo : Entry Empty).id ∧
      merge Classes.empty ⟨RegTypeCache.init.entries ++ [⟨12, .preciseConstLo 0⟩]⟩
          ⟨12, .preciseConstLo 0⟩ RegTypeCache.doubleLo =
        some (⟨12, .preciseConstLo 0⟩, ⟨RegTypeCache.init.entries ++ [⟨12, .preciseConstLo 0⟩]⟩) ∧
      isAssignableFrom Classes.empty RegTypeCache.longLo ⟨12, .preciseConstLo 0⟩ = some true ∧
      isAssignableFrom Classes.empty RegTypeCache.longLo RegTypeCache.doubleLo = some false := by
  have hc : (RegType.preciseConstLo (K := Empty) 0).isConstantLo = true := rfl
  have hd : RegTypeCache.doubleLo.type = (RegType.doubleLo : RegType Empty) := rfl
  have ht : RegTypeCache.longLo.type = (RegType.longLo : RegType Empty) := rfl
  have htd : (RegTypeCache.longLo : Entry Empty).id ≠ (RegTypeCache.doubleLo : Entry Empty).id := by decide
  exact ⟨hc, hd, ht, htd, merge_constLo_doubleLo_accepts_long Classes.empty _
    ⟨12, .preciseConstLo 0⟩ _ _ hc hd ht htd⟩

end Verifier

end ArtRuntime
