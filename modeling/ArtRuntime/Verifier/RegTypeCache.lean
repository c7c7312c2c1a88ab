import Mathlib.Data.List.Nodup
import ArtRuntime.Verifier.RegType

/-!
# The Register Type Cache

`RegTypeCache` hash-conses register types: every constructor function first
searches the entries after the twelve primitive ones for an entry that
answers the request, and only then appends a new entry whose id is its
index. The searches differ: `From` matches by descriptor
(`MatchDescriptor`), `FromClass` by class, and each of the uninitialized and
constant constructors by its own fields.

The model keeps the entries as a list of `Entry` values; each function
returns the entry it answers with and the cache after the call.

## Main definitions

* `RegTypeCache`, `RegTypeCache.init`: The cache and its primitive entries.
* `matchingPrecisionForClass`, `matchDescriptor`: The searches' predicates.
* `from`, `fromClass`, `fromDescriptor`, `fromUnresolvedMerge`,
  `fromUnresolvedSuperClass`, `uninitialized`, `uninitializedThisArgument`,
  `fromUninitialized`, `fromCat1Const`, `fromCat2ConstLo`,
  `fromCat2ConstHi`: The constructor functions.
* `loadConstants`: A run of `FromCat1Const`.
* `IdsAreIndices`, `Grows`: Every id is its entry's index truncated to 16
  bits; a constructor keeps the cache or pushes one entry.

## Theorems

* `IdsAreIndices.grows`: A cache that grows keeps its ids its indices, and
  each constructor function grows it (`grows_from`, `grows_fromClass`, ...).
* `fromCat1Const_fresh`: A constant the cache does not hold is appended.
* `loadConstants_entries`: A run of fresh constants appends one entry each.
* `loadConstants_id_wraps`: The entry made at index `65536` gets id `0`.
-/

namespace ArtRuntime

namespace Verifier

variable {K : Type} [DecidableEq K]

/-- `entries_`: the types made so far. An entry is made with the number of
    entries before it as its `uint16_t` id. -/
structure RegTypeCache (K : Type) where
  entries : List (Entry K)

/-- The primitive types `FillPrimitiveTypes` puts first, in order. -/
def primitiveTypes : List (RegType K) :=
  [.undefined, .conflict, .boolean, .byte, .short, .char, .integer, .longLo, .longHi,
   .float, .doubleLo, .doubleHi]

/-- `primitive_count_`. -/
def kNumPrimitives : Nat := 12

namespace RegTypeCache

/-- A fresh cache: the primitive entries with ids `0` to `11`. -/
def init : RegTypeCache K :=
  ⟨(primitiveTypes (K := K)).zipIdx.map fun (t, i) => ⟨i.toUInt16, t⟩⟩

/-- `GetFromId`. -/
def getFromId (cache : RegTypeCache K) (id : UInt16) : Option (Entry K) :=
  cache.entries[id.toNat]?

/-- The primitive entry of a kind, by its position in `primitiveTypes`. -/
def primitive (i : Nat) : Entry K :=
  ⟨i.toUInt16, (primitiveTypes (K := K)).getD i .conflict⟩

def conflict : Entry K := primitive 1
def boolean : Entry K := primitive 2
def byte : Entry K := primitive 3
def short : Entry K := primitive 4
def char : Entry K := primitive 5
def integer : Entry K := primitive 6
def longLo : Entry K := primitive 7
def float : Entry K := primitive 9
def doubleLo : Entry K := primitive 10

/-- Append a new entry, made with `entries_.size()` as its `uint16_t` id:
    the size is truncated to 16 bits. -/
def push (cache : RegTypeCache K) (t : RegType K) : Entry K × RegTypeCache K :=
  let e : Entry K := ⟨cache.entries.length.toUInt16, t⟩
  (e, ⟨cache.entries ++ [e]⟩)

/-- The search loop `for (i = primitive_count_; i < entries_.size(); i++)`. -/
def search (cache : RegTypeCache K) (p : RegType K → Bool) : Option (Entry K) :=
  (cache.entries.drop kNumPrimitives).find? (fun e => p e.type)

/-- `MatchingPrecisionForClass`: an entry of the asked precision, or a
    precise entry of a class no other type can be assigned from when an
    imprecise one was asked for. -/
def matchingPrecisionForClass (C : Classes K) (entry : RegType K) (precise : Bool) : Bool :=
  entry.isPreciseReference == precise ||
    (!precise && (entry.getClass.map C.cannotBeAssignedFromOtherTypes).getD false)

/-- `RegTypeCache::MatchDescriptor`: the same descriptor, and for an entry
    with a class the precision `MatchingPrecisionForClass` accepts. -/
def matchDescriptor (C : Classes K) (entry : RegType K) (descriptor : String) (precise : Bool) :
    Bool :=
  if entry.getDescriptor ≠ descriptor then false
  else if entry.hasClass then matchingPrecisionForClass C entry precise
  else true

/-- `RegTypeCache::From`. -/
def «from» (C : Classes K) (cache : RegTypeCache K) (descriptor : String) (precise : Bool) :
    Entry K × RegTypeCache K :=
  match cache.search (fun t => matchDescriptor C t descriptor precise) with
  | some e => (e, cache)
  | none =>
      match C.resolveClass descriptor with
      | some klass =>
          if C.cannotBeAssignedFromOtherTypes klass || precise then
            cache.push (.preciseReference klass descriptor)
          else cache.push (.reference klass descriptor)
      | none =>
          if C.isValidDescriptor descriptor then cache.push (.unresolvedReference descriptor)
          else (conflict, cache)

/-- `RegTypeFromPrimitiveType`, by the primitive's descriptor. -/
def primitiveFromDescriptor (descriptor : String) : Entry K :=
  match descriptor with
  | "Z" => boolean
  | "B" => byte
  | "S" => short
  | "C" => char
  | "I" => integer
  | "J" => longLo
  | "F" => float
  | "D" => doubleLo
  | _ => conflict

/-- `RegTypeCache::FromClass`. -/
def fromClass (C : Classes K) (cache : RegTypeCache K) (descriptor : String) (klass : K)
    (precise : Bool) : Entry K × RegTypeCache K :=
  if C.isPrimitive klass then (primitiveFromDescriptor (C.descriptor klass), cache)
  else
    match cache.search (fun t => t.getClass == some klass && matchingPrecisionForClass C t precise) with
    | some e => (e, cache)
    | none =>
        if precise then cache.push (.preciseReference klass descriptor)
        else cache.push (.reference klass descriptor)

/-- `RegTypeCache::FromDescriptor`. -/
def fromDescriptor (C : Classes K) (cache : RegTypeCache K) (descriptor : String)
    (precise : Bool) : Entry K × RegTypeCache K :=
  if descriptor.length = 1 then (primitiveFromDescriptor descriptor, cache)
  else if descriptor.startsWith "L" || descriptor.startsWith "[" then
    «from» C cache descriptor precise
  else (conflict, cache)

/-- `UnresolvedMergedType::GetMergedTypes` of the entry `id`, and `{id}` for
    an entry that is no merge; `fuel` bounds the depth of merges. -/
def mergedTypes (cache : RegTypeCache K) : Nat → UInt16 → List UInt16
  | 0, id => [id]
  | fuel + 1, id =>
      match cache.getFromId id with
      | some ⟨_, .unresolvedMerged l r⟩ => mergedTypes cache fuel l ∪ mergedTypes cache fuel r
      | _ => [id]

/-- Equality of two id sets. -/
def sameSet (a b : List UInt16) : Bool :=
  a.all (· ∈ b) && b.all (· ∈ a)

/-- `RegTypeCache::FromUnresolvedMerge`. -/
def fromUnresolvedMerge (cache : RegTypeCache K) (left right : Entry K) :
    Entry K × RegTypeCache K :=
  let fuel := cache.entries.length
  let types := cache.mergedTypes fuel left.id ∪ cache.mergedTypes fuel right.id
  let found := (cache.entries.drop kNumPrimitives).find? fun e =>
    e.type.isUnresolvedMergedReference && sameSet (cache.mergedTypes fuel e.id) types
  match found with
  | some e => (e, cache)
  | none => cache.push (.unresolvedMerged left.id right.id)

/-- `RegTypeCache::FromUnresolvedSuperClass`. -/
def fromUnresolvedSuperClass (cache : RegTypeCache K) (child : Entry K) :
    Entry K × RegTypeCache K :=
  match cache.search (fun t => t == .unresolvedSuperClass child.id) with
  | some e => (e, cache)
  | none => cache.push (.unresolvedSuperClass child.id)

/-- `RegTypeCache::Uninitialized`: by descriptor and pc for an unresolved
    type, by class and pc otherwise. -/
def uninitialized (cache : RegTypeCache K) (type : Entry K) (allocation_pc : Nat) :
    Entry K × RegTypeCache K :=
  let descriptor := type.type.getDescriptor
  if type.type.isUnresolvedTypes then
    match cache.search (fun t => t.isUnresolvedAndUninitializedReference &&
        t.allocationPc == allocation_pc && t.getDescriptor == descriptor) with
    | some e => (e, cache)
    | none => cache.push (.unresolvedUninitializedRef descriptor allocation_pc)
  else
    match type.type.getClass with
    | some klass =>
        match cache.search (fun t => t.isUninitializedReference &&
            t.allocationPc == allocation_pc && t.getClass == some klass) with
        | some e => (e, cache)
        | none => cache.push (.uninitializedReference klass descriptor allocation_pc)
    | none => (conflict, cache)

/-- `RegTypeCache::UninitializedThisArgument`. -/
def uninitializedThisArgument (cache : RegTypeCache K) (type : Entry K) :
    Entry K × RegTypeCache K :=
  let descriptor := type.type.getDescriptor
  if type.type.isUnresolvedTypes then
    match cache.search (fun t => t.isUnresolvedAndUninitializedThisReference &&
        t.getDescriptor == descriptor) with
    | some e => (e, cache)
    | none => cache.push (.unresolvedUninitializedThisRef descriptor)
  else
    match type.type.getClass with
    | some klass =>
        match cache.search (fun t => t.isUninitializedThisReference && t.getClass == some klass) with
        | some e => (e, cache)
        | none => cache.push (.uninitializedThisReference klass descriptor)
    | none => (conflict, cache)

/-- `RegTypeCache::FromUninitialized`. The uninitialized `this` of a class
    that is not final becomes an imprecise reference, searched among the
    `IsReference` entries and made with an empty descriptor; an allocated
    object becomes a precise reference. -/
def fromUninitialized (C : Classes K) (cache : RegTypeCache K) (uninit_type : Entry K) :
    Entry K × RegTypeCache K :=
  let u := uninit_type.type
  if u.isUnresolvedTypes then
    let descriptor := u.getDescriptor
    match cache.search (fun t => t.isUnresolvedReference && t.getDescriptor == descriptor) with
    | some e => (e, cache)
    | none => cache.push (.unresolvedReference descriptor)
  else
    match u.getClass with
    | some klass =>
        if u.isUninitializedThisReference && !C.isFinal klass then
          match cache.search (fun t => t.isReference && t.getClass == some klass) with
          | some e => (e, cache)
          | none => cache.push (.reference klass "")
        else if C.isInstantiable klass then
          match cache.search (fun t => t.isPreciseReference && t.getClass == some klass) with
          | some e => (e, cache)
          | none => cache.push (.preciseReference klass u.getDescriptor)
        else (conflict, cache)
    | none => (conflict, cache)

/-- `RegTypeCache::FromCat1Const`: by precision and value. -/
def fromCat1Const (cache : RegTypeCache K) (value : UInt32) (precise : Bool) :
    Entry K × RegTypeCache K :=
  match cache.search (fun t => t.getClass.isNone && t.isConstant &&
      t.isPreciseConstant == precise && t.constantValue == value.toInt32.toInt) with
  | some e => (e, cache)
  | none =>
      if precise then cache.push (.preciseConst value) else cache.push (.impreciseConst value)

/-- `RegTypeCache::FromCat2ConstLo`. -/
def fromCat2ConstLo (cache : RegTypeCache K) (value : UInt32) (precise : Bool) :
    Entry K × RegTypeCache K :=
  match cache.search (fun t => t.isConstantLo && t.isPrecise == precise &&
      t.constantValue == value.toInt32.toInt) with
  | some e => (e, cache)
  | none =>
      if precise then cache.push (.preciseConstLo value) else cache.push (.impreciseConstLo value)

/-- `RegTypeCache::FromCat2ConstHi`. -/
def fromCat2ConstHi (cache : RegTypeCache K) (value : UInt32) (precise : Bool) :
    Entry K × RegTypeCache K :=
  match cache.search (fun t => t.isConstantHi && t.isPrecise == precise &&
      t.constantValue == value.toInt32.toInt) with
  | some e => (e, cache)
  | none =>
      if precise then cache.push (.preciseConstHi value) else cache.push (.impreciseConstHi value)

/-- `ByteConstant`: the imprecise constant `-128`, standing for every byte. -/
def byteConstant (cache : RegTypeCache K) : Entry K × RegTypeCache K :=
  cache.fromCat1Const (0 - 128) false

/-- `ShortConstant`: the imprecise constant `-32768`. -/
def shortConstant (cache : RegTypeCache K) : Entry K × RegTypeCache K :=
  cache.fromCat1Const (0 - 32768) false

/-- `IntConstant`: the imprecise constant `2147483647`. -/
def intConstant (cache : RegTypeCache K) : Entry K × RegTypeCache K :=
  cache.fromCat1Const 0x7FFFFFFF false

/-- `JavaLangObject`. -/
def javaLangObject (C : Classes K) (cache : RegTypeCache K) (precise : Bool) :
    Entry K × RegTypeCache K :=
  «from» C cache "Ljava/lang/Object;" precise

/-! ### Ids and indices -/

/-- Every entry's id is its index truncated to 16 bits, as `push` makes
    it. -/
def IdsAreIndices (cache : RegTypeCache K) : Prop :=
  ∀ (i : Nat) (e : Entry K), cache.entries[i]? = some e → e.id = i.toUInt16

/-- The cache a constructor function returns: the same one, or one more
    entry pushed. -/
def Grows (cache cache' : RegTypeCache K) : Prop :=
  cache' = cache ∨ ∃ t, cache' = (cache.push t).2

omit [DecidableEq K] in
theorem Grows.refl (cache : RegTypeCache K) : Grows cache cache := Or.inl (Eq.refl cache)

omit [DecidableEq K] in
theorem Grows.push (cache : RegTypeCache K) (t : RegType K) : Grows cache (cache.push t).2 :=
  Or.inr ⟨t, Eq.refl _⟩

omit [DecidableEq K] in
/-- A constructor's answer, taken apart. -/
theorem Grows.of_some {cache cache' : RegTypeCache K} {p : Entry K × RegTypeCache K}
    {e : Entry K} (h : some p = some (e, cache')) (hp : cache.Grows p.2) : cache.Grows cache' := by
  rw [Option.some.injEq] at h
  rw [h] at hp
  exact hp

omit [DecidableEq K] in
theorem idsAreIndices_init : (init : RegTypeCache K).IdsAreIndices := by
  intro i e he
  simp only [init, List.getElem?_map, List.getElem?_zipIdx, Option.map_map] at he
  rcases Option.map_eq_some_iff.1 he with ⟨t, -, rfl⟩
  simp

omit [DecidableEq K] in
theorem IdsAreIndices.push {cache : RegTypeCache K} (h : cache.IdsAreIndices) (t : RegType K) :
    (cache.push t).2.IdsAreIndices := by
  intro i e he
  by_cases hi : i < cache.entries.length
  · rw [RegTypeCache.push, List.getElem?_append_left hi] at he
    exact h i e he
  · -- the entry pushed, at index `entries_.size()`
    rw [RegTypeCache.push, List.getElem?_append_right (by omega), List.getElem?_singleton] at he
    split_ifs at he with hzero
    rw [Option.some.injEq] at he
    rw [← he, show i = cache.entries.length by omega]

omit [DecidableEq K] in
theorem IdsAreIndices.grows {cache cache' : RegTypeCache K} (h : cache.IdsAreIndices)
    (hg : Grows cache cache') : cache'.IdsAreIndices := by
  rcases hg with rfl | ⟨t, rfl⟩
  · exact h
  · exact h.push t

omit [DecidableEq K] in
/-- `GetFromId` answers with an entry whose id is the one asked for. -/
theorem IdsAreIndices.id_of_getFromId {cache : RegTypeCache K} (h : cache.IdsAreIndices)
    {id : UInt16} {e : Entry K} (he : cache.getFromId id = some e) : e.id = id := by
  rw [h id.toNat e he]
  exact UInt16.ofNat_toNat

omit [DecidableEq K] in
theorem grows_from (C : Classes K) (cache : RegTypeCache K) (descriptor : String)
    (precise : Bool) : Grows cache («from» C cache descriptor precise).2 := by
  unfold «from»
  split
  · exact Grows.refl _
  · split
    · split
      · exact Grows.push _ _
      · exact Grows.push _ _
    · split
      · exact Grows.push _ _
      · exact Grows.refl _

theorem grows_fromClass (C : Classes K) (cache : RegTypeCache K) (descriptor : String) (klass : K)
    (precise : Bool) : Grows cache (fromClass C cache descriptor klass precise).2 := by
  unfold fromClass
  split
  · exact Grows.refl _
  · split
    · exact Grows.refl _
    · split
      · exact Grows.push _ _
      · exact Grows.push _ _

omit [DecidableEq K] in
theorem grows_fromUnresolvedMerge (cache : RegTypeCache K) (left right : Entry K) :
    Grows cache (cache.fromUnresolvedMerge left right).2 := by
  unfold fromUnresolvedMerge
  dsimp only
  split
  · exact Grows.refl _
  · exact Grows.push _ _

omit [DecidableEq K] in
theorem grows_fromCat1Const (cache : RegTypeCache K) (value : UInt32) (precise : Bool) :
    Grows cache (cache.fromCat1Const value precise).2 := by
  unfold fromCat1Const
  split
  · exact Grows.refl _
  · split
    · exact Grows.push _ _
    · exact Grows.push _ _

omit [DecidableEq K] in
theorem grows_fromCat2ConstLo (cache : RegTypeCache K) (value : UInt32) (precise : Bool) :
    Grows cache (cache.fromCat2ConstLo value precise).2 := by
  unfold fromCat2ConstLo
  split
  · exact Grows.refl _
  · split
    · exact Grows.push _ _
    · exact Grows.push _ _

omit [DecidableEq K] in
theorem grows_fromCat2ConstHi (cache : RegTypeCache K) (value : UInt32) (precise : Bool) :
    Grows cache (cache.fromCat2ConstHi value precise).2 := by
  unfold fromCat2ConstHi
  split
  · exact Grows.refl _
  · split
    · exact Grows.push _ _
    · exact Grows.push _ _

/-! ### Runs of constants -/

/-- The cache after `FromCat1Const` of each of `values` in turn, as the
    verifier meets one `const` instruction after another. -/
def loadConstants (cache : RegTypeCache K) (values : List UInt32) (precise : Bool) :
    RegTypeCache K :=
  values.foldl (fun c v => (c.fromCat1Const v precise).2) cache

omit [DecidableEq K] in
/-- A precise constant the cache does not hold yet is appended. -/
theorem fromCat1Const_fresh (cache : RegTypeCache K) (v : UInt32)
    (hfresh : ∀ e ∈ cache.entries.drop kNumPrimitives, e.type ≠ .preciseConst v) :
    cache.fromCat1Const v true = cache.push (.preciseConst v) := by
  have hnone : cache.search (fun t => t.getClass.isNone && t.isConstant &&
      t.isPreciseConstant == true && t.constantValue == v.toInt32.toInt) = none := by
    rw [search, List.find?_eq_none]
    intro e he hmatch
    -- a precise constant with the same `int32_t` value has the same bits
    cases ht : e.type <;> simp [ht, RegType.constantValue] at hmatch
    exact hfresh e he (by rw [ht, MachineWord.toInt_toInt32_inj hmatch])
  simp only [fromCat1Const, hnone, if_true]

omit [DecidableEq K] in
/-- A run of distinct fresh precise constants appends one entry per value,
    each with the number of entries before it, truncated to 16 bits, as id. -/
theorem loadConstants_entries (cache : RegTypeCache K) (values : List UInt32)
    (hnodup : values.Nodup) (hlen : kNumPrimitives ≤ cache.entries.length)
    (hfresh : ∀ v ∈ values, ∀ e ∈ cache.entries.drop kNumPrimitives, e.type ≠ .preciseConst v) :
    (cache.loadConstants values true).entries =
      cache.entries ++ (values.zipIdx cache.entries.length).map
        fun (v, i) => ⟨i.toUInt16, .preciseConst v⟩ := by
  induction values generalizing cache with
  | nil => simp [loadConstants]
  | cons v rest ih =>
      obtain ⟨hv, hrest⟩ := List.nodup_cons.mp hnodup
      have hstep := fromCat1Const_fresh cache v (hfresh v List.mem_cons_self)
      -- the entry made for `v` is no precise constant of the values still to come
      have hfresh' : ∀ w ∈ rest, ∀ e ∈ (cache.push (.preciseConst v)).2.entries.drop kNumPrimitives,
          e.type ≠ .preciseConst w := by
        intro w hw e he
        simp only [push, List.drop_append_of_le_length hlen, List.mem_append,
          List.mem_singleton] at he
        rcases he with he | rfl
        · exact hfresh w (List.mem_cons_of_mem v hw) e he
        · intro h
          exact hv (by injection h with h; rw [h]; exact hw)
      have hlen' : kNumPrimitives ≤ (cache.push (.preciseConst v)).2.entries.length := by
        simp only [push, List.length_append]
        omega
      have := ih (cache.push (.preciseConst v)).2 hrest hlen' hfresh'
      simp only [loadConstants, List.foldl_cons, hstep] at this ⊢
      rw [this]
      simp [push, List.zipIdx_cons, Nat.add_comm]

omit [DecidableEq K] in
/-- The precise constants `0` to `n - 1` loaded one after another into a
    fresh cache: one entry each after the primitives, made with its index as
    id, truncated to 16 bits. -/
theorem init_loadConstants_range {n : Nat} (hn : n ≤ 2 ^ 32) :
    ((init : RegTypeCache K).loadConstants ((List.range n).map Nat.toUInt32) true).entries =
      init.entries ++ (((List.range n).map Nat.toUInt32).zipIdx 12).map
        fun (v, i) => ⟨i.toUInt16, .preciseConst v⟩ := by
  -- below `2^32` the values are distinct `uint32_t`s
  have hnodup : ((List.range n).map Nat.toUInt32).Nodup := by
    refine List.Nodup.map_on ?_ List.nodup_range
    intro x hx y hy hxy
    have hx' := List.mem_range.mp hx
    have hy' := List.mem_range.mp hy
    have := congrArg UInt32.toNat hxy
    simp only [Nat.toUInt32_eq, UInt32.toNat_ofNat'] at this
    omega
  have hlen : (init : RegTypeCache K).entries.length = 12 := rfl
  have hentries := loadConstants_entries (init : RegTypeCache K) _ hnodup (by rw [hlen]; decide)
    (by intro v _ e he; simp [init, primitiveTypes, kNumPrimitives] at he)
  rw [hentries, hlen]

omit [DecidableEq K] in
/-- After `65525` distinct precise constants the cache holds `65537`
    entries. The last is made with `entries_.size() = 65536`, which the
    `uint16_t` id truncates to `0`: its id is not its index, and it `Equals`
    the `Undefined` entry at index `0`. -/
theorem loadConstants_id_wraps :
    (init.loadConstants ((List.range 65525).map Nat.toUInt32) true).entries[65536]? =
        some (⟨0, .preciseConst 65524⟩ : Entry K) ∧
      (init.loadConstants ((List.range 65525).map Nat.toUInt32) true).getFromId 0 =
        some (⟨0, .undefined⟩ : Entry K) ∧
      (⟨0, .preciseConst 65524⟩ : Entry K).equals ⟨0, .undefined⟩ = true := by
  have hlen : (init : RegTypeCache K).entries.length = 12 := rfl
  have hentries := init_loadConstants_range (K := K) (n := 65525) (by decide)
  refine ⟨?_, ?_, rfl⟩
  · rw [hentries, List.getElem?_append_right (by rw [hlen]; omega), hlen]
    simp
  · rw [getFromId, hentries, UInt16.toNat_zero, List.getElem?_append_left (by rw [hlen]; decide)]
    rfl

end RegTypeCache

end Verifier

end ArtRuntime
