import ArtRuntime.ClassLinker.LinkFields
import ArtRuntime.Mirror.IfTable

/-!
# Subtype Checks

`mirror::Class::IsAssignableFrom` decides whether a value of class `src` may
be stored where class `this` is expected: the test behind instance-of,
check-cast and array stores. It splits five ways: the same class; a target of
`java.lang.Object`; an interface target, by a scan of `src`'s iftable; an
array source, by the component types; and otherwise a walk up `src`'s
superclass chain.

A class is a primitive class, a class of a linked `ClassTable`, or the array
class of a component class. Array classes have `java.lang.Object` as their
superclass and share one iftable, the class linker's `array_iftable_`
(`java.lang.Cloneable` and `java.io.Serializable`), a parameter here.

`IsSubtype` states subtyping as the Java language has it, case by case, with
the interfaces a class implements given by the hierarchy's edges, not by the
iftable. On a linked table the check decides it: that rests on the iftable
listing exactly the reachable interfaces, which `Linked` provides.

## Main definitions

* `ClassRef`: A class.
* `ClassRef.isAssignableFrom`, `ClassRef.isAssignableFromArray`,
  `ClassRef.isArrayAssignableFromArray`, `ClassRef.implements`,
  `ClassRef.isSubClass`: The checks.
* `IsSubtype`: Java subtyping.

## Theorems

* `ClassRef.isSubClass_iff`: The walk decides the superclass chain.
* `isAssignableFrom_iff`: On a linked table the check decides `IsSubtype`.
-/

namespace ArtRuntime

namespace Mirror

open Relation ClassTable

/-- A class: a primitive class, a class of the table by its index, or the
    array class of a component class. -/
inductive ClassRef
  | primitive (t : {t : ClassLinker.PrimitiveType // t ≠ .kPrimNot})
  | klass (idx : Nat)
  | array (component : ClassRef)
  deriving DecidableEq

namespace ClassRef

/-- `java.lang.Object`, the first class linked. -/
def javaLangObject : ClassRef := .klass 0

/-- Class::IsPrimitive. -/
def isPrimitive : ClassRef → Bool
  | .primitive _ => true
  | _ => false

/-- Class::IsArrayClass. -/
def isArrayClass : ClassRef → Bool
  | .array _ => true
  | _ => false

variable (ct : ClassTable)

/-- Class::IsInterface. -/
def isInterface : ClassRef → Bool
  | .klass i => ct.isInterface i
  | _ => false

/-- Class::GetSuperClass: none for a primitive class and for
    `java.lang.Object`; `java.lang.Object` for an array class. -/
def getSuperClass : ClassRef → Option ClassRef
  | .primitive _ => none
  | .klass i => (ct.superOf i).map .klass
  | .array _ => some javaLangObject

/-- Class::IsObjectClass. -/
def isObjectClass (c : ClassRef) : Bool :=
  !c.isPrimitive && (c.getSuperClass ct).isNone

/-- A class the table can name: every index in it is linked. -/
def Valid : ClassRef → Prop
  | .primitive _ => True
  | .klass i => i < ct.classes.length
  | .array c => Valid c

instance decValid : (c : ClassRef) → Decidable (c.Valid ct)
  | .primitive _ => isTrue trivial
  | .klass i => inferInstanceAs (Decidable (i < ct.classes.length))
  | .array c => decValid c

/-- The measure the superclass walk decreases: the superclass of class `i`
    comes before it, and an array class's is class `0`. -/
def walkMeasure : ClassRef → Nat
  | .primitive _ => 0
  | .klass i => i
  | .array _ => 1

theorem walkMeasure_getSuperClass {c s : ClassRef} (h : c.getSuperClass ct = some s) :
    walkMeasure s < walkMeasure c := by
  cases c with
  | primitive t => cases h
  | klass i =>
    rcases Option.map_eq_some_iff.mp h with ⟨j, hj, rfl⟩
    exact superOf_lt hj
  | array c =>
    cases h
    exact Nat.zero_lt_one

/-- Class::IsSubClass: the walk up the superclass chain from `current`. -/
def isSubClass (current klass : ClassRef) : Bool :=
  current == klass ||
    match h : current.getSuperClass ct with
    | some super => isSubClass super klass
    | none => false
termination_by walkMeasure current
decreasing_by exact walkMeasure_getSuperClass ct h

variable (arrayIfTable : List Nat)

/-- Class::GetIfTable, the interfaces it lists; array classes share the
    class linker's `array_iftable_`. -/
def getIfTable : ClassRef → List ClassRef
  | .primitive _ => []
  | .klass i => (ct.ifTableOf i).map .klass
  | .array _ => arrayIfTable.map .klass

/-- Class::Implements: a linear scan of the iftable. -/
def implements (c klass : ClassRef) : Bool :=
  (c.getIfTable ct arrayIfTable).contains klass

mutual

/-- Class::IsAssignableFrom: whether `src` may be stored where `this` is
    expected. -/
def isAssignableFrom (this src : ClassRef) : Bool :=
  if this == src then true
  -- Can assign any reference to java.lang.Object.
  else if this.isObjectClass ct then !src.isPrimitive
  else if this.isInterface ct then src.implements ct arrayIfTable this
  else if src.isArrayClass then isAssignableFromArray this src
  else !src.isInterface ct && src.isSubClass ct this
termination_by (sizeOf src, 2)

/-- Class::IsAssignableFromArray, for an array class `src`. If `this` is not
    an array class it must be `java.lang.Object`, `src`'s superclass. -/
def isAssignableFromArray (this src : ClassRef) : Bool :=
  if !this.isArrayClass then src.getSuperClass ct == some this
  else isArrayAssignableFromArray this src
termination_by (sizeOf src, 1)

/-- Class::IsArrayAssignableFromArray: the component types decide. The
    source checks that both are array classes; otherwise it answers false
    here. -/
def isArrayAssignableFromArray (this src : ClassRef) : Bool :=
  match this, src with
  | .array component, .array srcComponent => isAssignableFrom component srcComponent
  | _, _ => false
termination_by (sizeOf src, 0)

end

end ClassRef

open ClassRef

section Spec

variable (ct : ClassTable) (arrayIfTable : List Nat)

/-- The cases of Java subtyping other than by component types: `s` may be
    assigned to `t` when they are the same class; when `t` is
    `java.lang.Object` and `s` is a reference type; when `t` is an interface
    that `s` implements, over superclass and interface edges, or that every
    array class implements; and when both are classes other than interfaces
    with `t` on `s`'s superclass chain. -/
def SubtypeCase (s t : ClassRef) : Prop :=
  s = t ∨
    (t = javaLangObject ∧ s.isPrimitive = false) ∨
    (∃ j, t = .klass j ∧ ct.isInterface j = true ∧
      ((∃ i, s = .klass i ∧ TransGen ct.Edge i j) ∨ (s.isArrayClass = true ∧ j ∈ arrayIfTable))) ∨
    (∃ i j, s = .klass i ∧ t = .klass j ∧ ct.isInterface i = false ∧ ct.isInterface j = false ∧
      ReflTransGen (fun a b => a.getSuperClass ct = some b) s t)

/-- Java subtyping: the direct cases, and array classes whose component types
    are subtypes. -/
def IsSubtype (s t : ClassRef) : Prop :=
  SubtypeCase ct arrayIfTable s t ∨
    match s, t with
    | .array s, .array t => IsSubtype s t
    | _, _ => False

end Spec

namespace ClassRef

variable (ct : ClassTable) {arrayIfTable : List Nat}

theorem isSubClass_iff (current klass : ClassRef) :
    current.isSubClass ct klass = true ↔
      ReflTransGen (fun a b => a.getSuperClass ct = some b) current klass := by
  fun_induction isSubClass ct current klass with
  | case1 current ih =>
    rw [Bool.or_eq_true, beq_iff_eq, ReflTransGen.cases_head_iff]
    apply or_congr_right
    split
    · rename_i super hsuper
      rw [ih super hsuper]
      constructor
      · intro hk
        exact ⟨super, hsuper, hk⟩
      · rintro ⟨c, hc, hk⟩
        rw [hsuper, Option.some_inj] at hc
        exact hc ▸ hk
    · rename_i hnone
      simp [hnone]

variable {ct}

theorem reflTransGen_getSuperClass_klass {i : Nat} {t : ClassRef}
    (h : ReflTransGen (fun a b => a.getSuperClass ct = some b) (.klass i) t) : ∃ j, t = .klass j := by
  induction h with
  | refl => exact ⟨i, rfl⟩
  | tail _ hbc ih =>
    rcases ih with ⟨j, rfl⟩
    rcases Option.map_eq_some_iff.mp hbc with ⟨k, -, rfl⟩
    exact ⟨k, rfl⟩

theorem reflTransGen_getSuperClass_primitive {p : {t : ClassLinker.PrimitiveType // t ≠ .kPrimNot}}
    {t : ClassRef} (h : ReflTransGen (fun a b => a.getSuperClass ct = some b) (.primitive p) t) :
    t = .primitive p := by
  rcases ReflTransGen.cases_head h with rfl | ⟨c, hc, -⟩
  · rfl
  · cases hc

theorem implements_klass_iff {s : ClassRef} {j : Nat} :
    s.implements ct arrayIfTable (.klass j) = true ↔
      (∃ i, s = .klass i ∧ j ∈ ct.ifTableOf i) ∨ (s.isArrayClass = true ∧ j ∈ arrayIfTable) := by
  cases s <;> simp [implements, getIfTable, isArrayClass]

theorem isAssignableFromArray_array {tc sc : ClassRef} :
    (ClassRef.array tc).isAssignableFromArray ct arrayIfTable (.array sc) =
      tc.isAssignableFrom ct arrayIfTable sc := by
  rw [isAssignableFromArray, isArrayAssignableFromArray]
  rfl

theorem isAssignableFromArray_of_not_array {t sc : ClassRef} (ht : t.isArrayClass = false) :
    t.isAssignableFromArray ct arrayIfTable (.array sc) = (t == javaLangObject) := by
  rw [isAssignableFromArray, ht]
  simp [getSuperClass, eq_comm]

end ClassRef

section Subtype

variable {ct : ClassTable} {arrayIfTable : List Nat}

theorem isSubtype_iff_of_not_arrays {s t : ClassRef}
    (h : s.isArrayClass = false ∨ t.isArrayClass = false) :
    IsSubtype ct arrayIfTable s t ↔ SubtypeCase ct arrayIfTable s t := by
  rw [IsSubtype, or_false]
  rintro sc tc rfl rfl
  simp [isArrayClass] at h

theorem isSubtype_array_array {s t : ClassRef} :
    IsSubtype ct arrayIfTable (.array s) (.array t) ↔
      SubtypeCase ct arrayIfTable (.array s) (.array t) ∨ IsSubtype ct arrayIfTable s t := by
  rw [IsSubtype]

theorem isSubtype_refl (s : ClassRef) : IsSubtype ct arrayIfTable s s := by
  unfold IsSubtype
  exact .inl (.inl rfl)

theorem isSubtype_javaLangObject_iff {s : ClassRef} :
    IsSubtype ct arrayIfTable s javaLangObject ↔ s.isPrimitive = false := by
  rw [isSubtype_iff_of_not_arrays (.inr rfl), SubtypeCase]
  constructor
  · -- every case names a reference type
    rintro (rfl | ⟨-, hs⟩ | ⟨j, -, -, ⟨i, rfl, -⟩ | ⟨hs, -⟩⟩ | ⟨i, j, rfl, -⟩)
    · rfl
    · exact hs
    · rfl
    · cases s <;> simp_all [isArrayClass, isPrimitive]
    · rfl
  · intro hs
    exact .inr (.inl ⟨rfl, hs⟩)

theorem isSubtype_interface_iff {s : ClassRef} {j : Nat} (hne : s ≠ .klass j)
    (hobj : ClassRef.klass j ≠ javaLangObject) (hj : ct.isInterface j = true) :
    IsSubtype ct arrayIfTable s (.klass j) ↔
      (∃ i, s = .klass i ∧ TransGen ct.Edge i j) ∨ (s.isArrayClass = true ∧ j ∈ arrayIfTable) := by
  rw [isSubtype_iff_of_not_arrays (.inr rfl), SubtypeCase]
  constructor
  · rintro (h | ⟨h, -⟩ | ⟨j', hj', -, himpl⟩ | ⟨i, j', -, hj', -, hj'I, -⟩)
    · exact absurd h hne
    · exact absurd h hobj
    · cases hj'
      exact himpl
    · -- the superclass-chain case is for targets that are not interfaces
      cases hj'
      rw [hj] at hj'I
      cases hj'I
  · intro h
    exact .inr (.inr (.inl ⟨j, rfl, hj, h⟩))

theorem isSubtype_array_left_iff {sc t : ClassRef} (hne : ClassRef.array sc ≠ t)
    (hobj : t ≠ javaLangObject) (hint : t.isInterface ct = false) :
    IsSubtype ct arrayIfTable (.array sc) t ↔ ∃ tc, t = .array tc ∧ IsSubtype ct arrayIfTable sc tc := by
  -- below a target other than itself, an interface or Object, an array class only has arrays
  have hcase : ¬ SubtypeCase ct arrayIfTable (.array sc) t := by
    rintro (h | ⟨h, -⟩ | ⟨j, rfl, hj, -⟩ | ⟨i, j, h, -⟩)
    · exact hne h
    · exact hobj h
    · rw [ClassRef.isInterface, hj] at hint
      cases hint
    · cases h
  cases t with
  | array tc =>
    rw [isSubtype_array_array, or_iff_right hcase]
    constructor
    · intro h
      exact ⟨tc, rfl, h⟩
    · rintro ⟨tc', htc, h⟩
      cases htc
      exact h
  | primitive p =>
    rw [isSubtype_iff_of_not_arrays (.inr rfl)]
    simp [hcase]
  | klass j =>
    rw [isSubtype_iff_of_not_arrays (.inr rfl)]
    simp [hcase]

theorem isSubtype_class_iff {s t : ClassRef} (hne : s ≠ t) (hobj : t ≠ javaLangObject)
    (hint : t.isInterface ct = false) (hs : s.isArrayClass = false) :
    IsSubtype ct arrayIfTable s t ↔
      s.isInterface ct = false ∧ ReflTransGen (fun a b => a.getSuperClass ct = some b) s t := by
  rw [isSubtype_iff_of_not_arrays (.inl hs), SubtypeCase]
  constructor
  · rintro (h | ⟨h, -⟩ | ⟨j, rfl, hj, -⟩ | ⟨i, j, rfl, rfl, hi, -, hchain⟩)
    · exact absurd h hne
    · exact absurd h hobj
    · rw [ClassRef.isInterface, hj] at hint
      cases hint
    · exact ⟨hi, hchain⟩
  · rintro ⟨hsI, hchain⟩
    cases s with
    | primitive p => exact absurd (reflTransGen_getSuperClass_primitive hchain).symm hne
    | klass i =>
      rcases reflTransGen_getSuperClass_klass hchain with ⟨j, rfl⟩
      exact .inr (.inr (.inr ⟨i, j, rfl, rfl, hsI, hint, hchain⟩))
    | array sc => cases hs

theorem isObjectClass_iff (hct : Linked ct) {c : ClassRef} (hc : c.Valid ct) :
    c.isObjectClass ct = true ↔ c = javaLangObject := by
  cases c with
  | primitive p => simp [isObjectClass, isPrimitive, javaLangObject]
  | array c => simp [isObjectClass, isPrimitive, getSuperClass, javaLangObject]
  | klass i =>
    simp only [isObjectClass, isPrimitive, getSuperClass, Option.isNone_map, Bool.not_false,
      Bool.true_and, javaLangObject, klass.injEq]
    constructor
    · -- only the first class has no superclass
      intro h
      by_contra hi
      have := hct.super_isSome i (Nat.pos_of_ne_zero hi) hc
      rw [Option.isSome_iff_ne_none] at this
      exact this (Option.isNone_iff_eq_none.mp h)
    · rintro rfl
      cases h : ct.superOf 0 with
      | none => rfl
      | some s => exact absurd (superOf_lt h) (Nat.not_lt_zero s)

/-- One case split of IsAssignableFrom, the recursion into component types
    taken as given. -/
theorem isAssignableFrom_iff_step (hct : Linked ct) {s t : ClassRef} (ht : t.Valid ct)
    (hrec : ∀ sc tc, s = .array sc → t = .array tc →
      (tc.isAssignableFrom ct arrayIfTable sc = true ↔ IsSubtype ct arrayIfTable sc tc)) :
    t.isAssignableFrom ct arrayIfTable s = true ↔ IsSubtype ct arrayIfTable s t := by
  rw [isAssignableFrom]
  by_cases heq : t = s
  · subst heq
    simp only [beq_self_eq_true, ↓reduceIte, true_iff]
    exact isSubtype_refl t
  rw [if_neg (by simpa using heq)]
  by_cases hobj : t.isObjectClass ct = true
  · rw [if_pos hobj, (isObjectClass_iff hct ht).mp hobj, isSubtype_javaLangObject_iff,
      Bool.not_eq_true']
  have hobj' : t ≠ javaLangObject := fun h => hobj ((isObjectClass_iff hct ht).mpr h)
  rw [if_neg hobj]
  by_cases hint : t.isInterface ct = true
  · -- an interface: the iftable scan
    rw [if_pos hint]
    cases t with
    | klass j =>
      have hj : ct.isInterface j = true := hint
      rw [implements_klass_iff, isSubtype_interface_iff (Ne.symm heq) hobj' hj]
      simp only [hct.mem_ifTable, hj, true_and]
    | primitive p => cases hint
    | array tc => cases hint
  rw [if_neg hint]
  replace hint : t.isInterface ct = false := by simpa using hint
  by_cases harr : s.isArrayClass = true
  · -- an array source: Object, or arrays by their components
    rw [if_pos harr]
    cases s with
    | array sc =>
      rw [isSubtype_array_left_iff (Ne.symm heq) hobj' hint]
      cases t with
      | array tc =>
        rw [isAssignableFromArray_array, hrec sc tc rfl rfl]
        constructor
        · intro h
          exact ⟨tc, rfl, h⟩
        · rintro ⟨tc', htc, h⟩
          cases htc
          exact h
      | primitive p =>
        rw [isAssignableFromArray_of_not_array rfl]
        simp [javaLangObject]
      | klass j =>
        rw [isAssignableFromArray_of_not_array rfl, beq_iff_eq]
        simp only [reduceCtorEq, false_and, exists_false, iff_false]
        exact hobj'
    | primitive p => cases harr
    | klass i => cases harr
  · -- a class walks its superclass chain
    rw [if_neg harr, isSubtype_class_iff (Ne.symm heq) hobj' hint (by simpa using harr),
      Bool.and_eq_true, Bool.not_eq_true', isSubClass_iff]

/-- On a linked table, IsAssignableFrom decides Java subtyping. -/
theorem isAssignableFrom_iff (hct : Linked ct) (s : ClassRef) :
    ∀ t, t.Valid ct →
      (t.isAssignableFrom ct arrayIfTable s = true ↔ IsSubtype ct arrayIfTable s t) := by
  -- on the source class: only array classes recurse, into their components
  induction s with
  | primitive p => exact fun t ht => isAssignableFrom_iff_step hct ht (fun _ _ h => by cases h)
  | klass i => exact fun t ht => isAssignableFrom_iff_step hct ht (fun _ _ h => by cases h)
  | array sc ih =>
    intro t ht
    refine isAssignableFrom_iff_step hct ht ?_
    rintro sc' tc hs rfl
    cases hs
    exact ih tc ht

end Subtype

/-- A class hierarchy linked by the class linker: each iftable lists, without
    duplicates, exactly the interfaces the class reaches over superclass and
    direct-interface edges, and IsAssignableFrom decides Java subtyping. -/
theorem isAssignableFrom_iff_isSubtype (classes : List LoadedClass) (ct : ClassTable)
    (hlink : linkAll classes = some ct) (arrayIfTable : List Nat) :
    (∀ i, (ct.ifTableOf i).Nodup ∧
        ∀ j, j ∈ ct.ifTableOf i ↔ ct.isInterface j = true ∧ TransGen ct.Edge i j) ∧
      ∀ s t : ClassRef, t.Valid ct →
        (t.isAssignableFrom ct arrayIfTable s = true ↔ IsSubtype ct arrayIfTable s t) := by
  have hct := linked_linkAll hlink
  refine ⟨fun i => ⟨hct.nodup i, hct.mem_ifTable i⟩, ?_⟩
  intro s t ht
  exact isAssignableFrom_iff hct s t ht

theorem isAssignableFrom_iff_isSubtype_sample :
    ∃ ct, linkAll sampleClasses = some ct ∧
      ((∀ i, (ct.ifTableOf i).Nodup ∧
          ∀ j, j ∈ ct.ifTableOf i ↔ ct.isInterface j = true ∧ TransGen ct.Edge i j) ∧
        ∀ s t : ClassRef, t.Valid ct →
          (t.isAssignableFrom ct [1, 2] s = true ↔ IsSubtype ct [1, 2] s t)) := by
  rcases Option.isSome_iff_exists.mp (show (linkAll sampleClasses).isSome = true by decide)
    with ⟨ct, hlink⟩
  exact ⟨ct, hlink, isAssignableFrom_iff_isSubtype sampleClasses ct hlink [1, 2]⟩

end Mirror

end ArtRuntime
