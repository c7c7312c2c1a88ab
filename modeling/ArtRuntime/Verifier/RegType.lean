import ArtRuntime.Core.Word

/-!
# Register Types

The method verifier's lattice of register types: the primitive types, the
32-bit constants and the halves of 64-bit constants with their values,
references to resolved classes (precise or not), uninitialized references
with their allocation site, and the types of unresolved classes. Each type
lives in a `RegTypeCache` entry and is compared by its entry's id
(`RegType::Equals`).

The classes themselves are an abstract type `K` with the attributes of
`mirror::Class` that the verifier asks about, gathered in `Classes`. The
class subtype test `Class::IsAssignableFrom` is a parameter here: its own
model is the class linker's.

## Main definitions

* `Classes`: The class attributes the verifier reads.
* `RegType`: The kinds of register type, with their payloads.
* `Entry`, `Entry.equals`: A cache entry, a type with its id, and the
  equality of types by id.
* The kind predicates of `reg_type.h`, `constantValue`, `getClass`.
* `assignableFrom`, `isAssignableFrom`: `RegType::IsAssignableFrom`.
-/

namespace ArtRuntime

namespace Verifier

/-- The attributes of `mirror::Class` that the register types read, for
    classes drawn from `K`. -/
structure Classes (K : Type) where
  descriptor : K → String
  superClass : K → Option K
  componentType : K → Option K
  isPrimitive : K → Bool
  isInterface : K → Bool
  isAbstract : K → Bool
  isFinal : K → Bool
  /-- `Class::Depth`: the length of the superclass chain. -/
  depth : K → Nat
  /-- `Class::CannotBeAssignedFromOtherTypes`. -/
  cannotBeAssignedFromOtherTypes : K → Bool
  /-- `Class::IsAssignableFrom`. -/
  isAssignableFrom : K → K → Bool
  /-- `RegTypeCache::ResolveClass` with the verifier's class loader. -/
  resolveClass : String → Option K
  /-- `IsValidDescriptor`. -/
  isValidDescriptor : String → Bool
  /-- `ClassLinker::FindClass` with the loader of the classes being joined. -/
  findClass : String → Option K

variable {K : Type}

/-- `Class::IsArrayClass`. -/
def Classes.isArrayClass (C : Classes K) (k : K) : Bool :=
  (C.componentType k).isSome

/-- `Class::IsObjectClass`. -/
def Classes.isObjectClass (C : Classes K) (k : K) : Bool :=
  !C.isPrimitive k && (C.superClass k).isNone

/-- `Class::IsInstantiable`. -/
def Classes.isInstantiable (C : Classes K) (k : K) : Bool :=
  (!C.isPrimitive k && !C.isInterface k && !C.isAbstract k) ||
    (C.isAbstract k && C.isArrayClass k)

/-- A class universe with no classes: every descriptor stays unresolved. -/
def Classes.empty : Classes Empty where
  descriptor := Empty.elim
  superClass := Empty.elim
  componentType := Empty.elim
  isPrimitive := Empty.elim
  isInterface := Empty.elim
  isAbstract := Empty.elim
  isFinal := Empty.elim
  depth := Empty.elim
  cannotBeAssignedFromOtherTypes := Empty.elim
  isAssignableFrom := Empty.elim
  resolveClass := fun _ => none
  isValidDescriptor := fun _ => true
  findClass := fun _ => none

/-- The kinds of `RegType`, one constructor per leaf class of `reg_type.h`,
    with the payload each carries. A constant keeps the `uint32_t` it was
    made from. -/
inductive RegType (K : Type)
  | undefined
  | conflict
  | boolean
  | byte
  | short
  | char
  | integer
  | longLo
  | longHi
  | float
  | doubleLo
  | doubleHi
  | preciseConst (constant : UInt32)
  | impreciseConst (constant : UInt32)
  | preciseConstLo (constant : UInt32)
  | impreciseConstLo (constant : UInt32)
  | preciseConstHi (constant : UInt32)
  | impreciseConstHi (constant : UInt32)
  | uninitializedReference (klass : K) (descriptor : String) (allocationPc : Nat)
  | unresolvedUninitializedRef (descriptor : String) (allocationPc : Nat)
  | uninitializedThisReference (klass : K) (descriptor : String)
  | unresolvedUninitializedThisRef (descriptor : String)
  | reference (klass : K) (descriptor : String)
  | preciseReference (klass : K) (descriptor : String)
  | unresolvedReference (descriptor : String)
  | unresolvedSuperClass (childId : UInt16)
  | unresolvedMerged (leftId rightId : UInt16)
  deriving DecidableEq, Repr

/-- A `RegType` object: its kind and its `cache_id_`, a `uint16_t`. -/
structure Entry (K : Type) where
  id : UInt16
  type : RegType K
  deriving DecidableEq, Repr

/-- `RegType::Equals`: two types are equal when their cache ids are. -/
def Entry.equals (a b : Entry K) : Bool :=
  a.id == b.id

namespace RegType

/-! ### Kind predicates -/

@[simp] def isUndefined : RegType K → Bool | .undefined => true | _ => false
@[simp] def isConflict : RegType K → Bool | .conflict => true | _ => false
@[simp] def isBoolean : RegType K → Bool | .boolean => true | _ => false
@[simp] def isByte : RegType K → Bool | .byte => true | _ => false
@[simp] def isShort : RegType K → Bool | .short => true | _ => false
@[simp] def isChar : RegType K → Bool | .char => true | _ => false
@[simp] def isInteger : RegType K → Bool | .integer => true | _ => false
@[simp] def isLongLo : RegType K → Bool | .longLo => true | _ => false
@[simp] def isLongHi : RegType K → Bool | .longHi => true | _ => false
@[simp] def isFloat : RegType K → Bool | .float => true | _ => false
@[simp] def isDoubleLo : RegType K → Bool | .doubleLo => true | _ => false
@[simp] def isDoubleHi : RegType K → Bool | .doubleHi => true | _ => false
@[simp] def isPreciseConstant : RegType K → Bool | .preciseConst _ => true | _ => false
@[simp] def isImpreciseConstant : RegType K → Bool | .impreciseConst _ => true | _ => false
@[simp] def isPreciseConstantLo : RegType K → Bool | .preciseConstLo _ => true | _ => false
@[simp] def isImpreciseConstantLo : RegType K → Bool | .impreciseConstLo _ => true | _ => false
@[simp] def isPreciseConstantHi : RegType K → Bool | .preciseConstHi _ => true | _ => false
@[simp] def isImpreciseConstantHi : RegType K → Bool | .impreciseConstHi _ => true | _ => false
@[simp] def isUninitializedReference : RegType K → Bool
  | .uninitializedReference _ _ _ => true | _ => false
@[simp] def isUnresolvedAndUninitializedReference : RegType K → Bool
  | .unresolvedUninitializedRef _ _ => true | _ => false
@[simp] def isUninitializedThisReference : RegType K → Bool
  | .uninitializedThisReference _ _ => true | _ => false
@[simp] def isUnresolvedAndUninitializedThisReference : RegType K → Bool
  | .unresolvedUninitializedThisRef _ => true | _ => false
@[simp] def isReference : RegType K → Bool | .reference _ _ => true | _ => false
@[simp] def isPreciseReference : RegType K → Bool | .preciseReference _ _ => true | _ => false
@[simp] def isUnresolvedReference : RegType K → Bool | .unresolvedReference _ => true | _ => false
@[simp] def isUnresolvedSuperClass : RegType K → Bool | .unresolvedSuperClass _ => true | _ => false
@[simp] def isUnresolvedMergedReference : RegType K → Bool | .unresolvedMerged _ _ => true | _ => false

/-- `IsUninitializedTypes`: the four `UninitializedType` classes. -/
@[simp] def isUninitializedTypes (t : RegType K) : Bool :=
  t.isUninitializedReference || t.isUnresolvedAndUninitializedReference ||
    t.isUninitializedThisReference || t.isUnresolvedAndUninitializedThisReference

@[simp] def isConstant (t : RegType K) : Bool := t.isPreciseConstant || t.isImpreciseConstant
@[simp] def isConstantLo (t : RegType K) : Bool := t.isPreciseConstantLo || t.isImpreciseConstantLo
@[simp] def isConstantHi (t : RegType K) : Bool := t.isPreciseConstantHi || t.isImpreciseConstantHi
@[simp] def isPrecise (t : RegType K) : Bool :=
  t.isPreciseConstantLo || t.isPreciseConstant || t.isPreciseConstantHi
@[simp] def isLongConstant (t : RegType K) : Bool := t.isConstantLo

@[simp] def isUnresolvedTypes (t : RegType K) : Bool :=
  t.isUnresolvedReference || t.isUnresolvedAndUninitializedReference ||
    t.isUnresolvedAndUninitializedThisReference || t.isUnresolvedMergedReference ||
    t.isUnresolvedSuperClass

@[simp] def isLowHalf (t : RegType K) : Bool :=
  t.isLongLo || t.isDoubleLo || t.isPreciseConstantLo || t.isImpreciseConstantLo

@[simp] def isHighHalf (t : RegType K) : Bool :=
  t.isLongHi || t.isDoubleHi || t.isPreciseConstantHi || t.isImpreciseConstantHi

/-- `constant_`, the stored `uint32_t` of a constant; `0` for a type that
    is no constant. -/
@[simp] def constantBits : RegType K → UInt32
  | .preciseConst c | .impreciseConst c | .preciseConstLo c | .impreciseConstLo c
  | .preciseConstHi c | .impreciseConstHi c => c
  | _ => 0

/-- `ConstantType::ConstantValue` (and its `Lo` and `Hi` forms): `constant_`
    read as `int32_t`. -/
def constantValue (t : RegType K) : Int := t.constantBits.toInt32.toInt

/-- `ConstantType::IsZero`. -/
def isZero (t : RegType K) : Bool := t.isPreciseConstant && t.constantValue == 0

/-- `ConstantType::IsConstantChar`: a 32-bit constant in `[0, 65535]`. -/
def isConstantChar (t : RegType K) : Bool :=
  t.isConstant && 0 ≤ t.constantValue && t.constantValue ≤ 65535

/-- `ConstantType::IsConstantByte`: a 32-bit constant in `[-128, 127]`. -/
def isConstantByte (t : RegType K) : Bool :=
  t.isConstant && -128 ≤ t.constantValue && t.constantValue ≤ 127

/-- `ConstantType::IsConstantShort`: a 32-bit constant in `[-32768, 32767]`. -/
def isConstantShort (t : RegType K) : Bool :=
  t.isConstant && -32768 ≤ t.constantValue && t.constantValue ≤ 32767

def isConstantBoolean (t : RegType K) : Bool :=
  t.isConstant && 0 ≤ t.constantValue && t.constantValue ≤ 1

/-- `IsNonZeroReferenceTypes`: references, uninitialized and unresolved
    types. -/
@[simp] def isNonZeroReferenceTypes (t : RegType K) : Bool :=
  t.isReference || t.isPreciseReference || t.isUninitializedTypes ||
    t.isUnresolvedReference || t.isUnresolvedSuperClass || t.isUnresolvedMergedReference

@[simp] def isReferenceTypes (t : RegType K) : Bool := t.isNonZeroReferenceTypes || t.isZero

@[simp] def isBooleanTypes (t : RegType K) : Bool := t.isBoolean || t.isConstantBoolean
@[simp] def isByteTypes (t : RegType K) : Bool := t.isConstantByte || t.isByte || t.isBoolean
@[simp] def isShortTypes (t : RegType K) : Bool :=
  t.isShort || t.isByte || t.isBoolean || t.isConstantShort
@[simp] def isCharTypes (t : RegType K) : Bool := t.isChar || t.isBooleanTypes || t.isConstantChar
@[simp] def isIntegralTypes (t : RegType K) : Bool :=
  t.isInteger || t.isConstant || t.isByte || t.isShort || t.isChar || t.isBoolean
@[simp] def isFloatTypes (t : RegType K) : Bool := t.isFloat || t.isConstant
@[simp] def isLongTypes (t : RegType K) : Bool := t.isLongLo || t.isLongConstant
@[simp] def isLongHighTypes (t : RegType K) : Bool :=
  t.isLongHi || t.isPreciseConstantHi || t.isImpreciseConstantHi
@[simp] def isDoubleTypes (t : RegType K) : Bool := t.isDoubleLo || t.isLongConstant
@[simp] def isDoubleHighTypes (t : RegType K) : Bool :=
  t.isDoubleHi || t.isPreciseConstantHi || t.isImpreciseConstantHi

/-! ### Classes and descriptors -/

/-- `HasClass`: the resolved reference kinds. -/
@[simp] def hasClass (t : RegType K) : Bool :=
  t.isReference || t.isPreciseReference || t.isUninitializedReference ||
    t.isUninitializedThisReference

/-- `klass_`, for the kinds that hold a class. -/
@[simp] def getClass : RegType K → Option K
  | .uninitializedReference k _ _ | .uninitializedThisReference k _ | .reference k _
  | .preciseReference k _ => some k
  | _ => none

/-- `descriptor_`; merged and super-class types keep `""`. -/
@[simp] def getDescriptor : RegType K → String
  | .uninitializedReference _ d _ | .unresolvedUninitializedRef d _
  | .uninitializedThisReference _ d | .unresolvedUninitializedThisRef d
  | .reference _ d | .preciseReference _ d | .unresolvedReference d => d
  | _ => ""

/-- The allocation pc of an uninitialized type. -/
def allocationPc : RegType K → Nat
  | .uninitializedReference _ _ pc | .unresolvedUninitializedRef _ pc => pc
  | _ => 0

/-- `IsJavaLangObject`: an imprecise reference to the root class. -/
def isJavaLangObject (C : Classes K) (t : RegType K) : Bool :=
  t.isReference && (t.getClass.map C.isObjectClass).getD false

/-- `IsArrayTypes`. -/
def isArrayTypes (C : Classes K) (t : RegType K) : Bool :=
  if t.isUnresolvedTypes && !t.isUnresolvedMergedReference && !t.isUnresolvedSuperClass then
    t.getDescriptor.startsWith "["
  else if t.hasClass then (t.getClass.map C.isArrayClass).getD false
  else false

/-- `IsObjectArrayTypes`. -/
def isObjectArrayTypes (C : Classes K) (t : RegType K) : Bool :=
  if t.isUnresolvedTypes && !t.isUnresolvedMergedReference && !t.isUnresolvedSuperClass then
    t.getDescriptor.startsWith "["
  else if t.hasClass then
    match t.getClass.bind C.componentType with
    | some ct => !C.isPrimitive ct
    | none => false
  else false

/-- `IsJavaLangObjectArray`. -/
def isJavaLangObjectArray (C : Classes K) (t : RegType K) : Bool :=
  if t.hasClass then
    match t.getClass.bind C.componentType with
    | some ct => C.isObjectClass ct
    | none => false
  else false

theorem isConstantLo_iff {t : RegType K} :
    t.isConstantLo = true ↔ ∃ v, t = .preciseConstLo v ∨ t = .impreciseConstLo v := by
  cases t <;> simp

theorem isConstantHi_iff {t : RegType K} :
    t.isConstantHi = true ↔ ∃ v, t = .preciseConstHi v ∨ t = .impreciseConstHi v := by
  cases t <;> simp

end RegType

/-! ### Assignability -/

open RegType in
/-- The static `AssignableFrom` of `reg_type.cc`: after id equality, a
    primitive `lhs` accepts its family of `rhs` kinds, and a reference `lhs`
    accepts null, any reference for `Object`, any reference for an interface
    when not strict, any reference array for `Object[]`, and otherwise a
    class the class hierarchy allows. `none` is the `CHECK` failure for an
    `lhs` of no expected kind. -/
def assignableFrom (C : Classes K) (lhs rhs : Entry K) (strict : Bool) : Option Bool :=
  if lhs.equals rhs then some true
  else
    let l := lhs.type
    let r := rhs.type
    if l.isBoolean then some r.isBooleanTypes
    else if l.isByte then some r.isByteTypes
    else if l.isShort then some r.isShortTypes
    else if l.isChar then some r.isCharTypes
    else if l.isInteger then some r.isIntegralTypes
    else if l.isFloat then some r.isFloatTypes
    else if l.isLongLo then some r.isLongTypes
    else if l.isDoubleLo then some r.isDoubleTypes
    else if !l.isReferenceTypes then none
    else if r.isZero then some true
    else if !r.isReferenceTypes then some false
    else if l.isJavaLangObject C then some true
    else if !strict && !l.isUnresolvedTypes && (l.getClass.map C.isInterface).getD false then
      some true
    else if l.isJavaLangObjectArray C then some (r.isObjectArrayTypes C)
    else
      match l.getClass, r.getClass with
      | some lk, some rk => some (l.hasClass && r.hasClass && C.isAssignableFrom lk rk)
      | _, _ => some false

/-- `RegType::IsAssignableFrom`. -/
def isAssignableFrom (C : Classes K) (lhs rhs : Entry K) : Option Bool :=
  assignableFrom C lhs rhs false

end Verifier

end ArtRuntime
