import Mathlib
import ArtRuntime.Core.Layout

/-!
# Instance Field Layout

`ClassLinker::LinkFields(klass, false)` gives every instance field of a class
its byte offset in an object. The fields are sorted into references, then
`long` and `double`, then the rest, and laid out from the end of the
superclass's object: references first, 4 bytes each; then, if the offset is
not 8-aligned, the first 32-bit field fills the 4-byte hole (or the hole is
padding); then the rest, 8 bytes for a 64-bit field and 4 for the others.
`CreateReferenceInstanceOffsets` then records the reference offsets in a
32-bit bitmap, one bit per word from the top, on top of the superclass's.

The fields are modelled by their name and primitive type, which is all
`LinkFields` reads; the sort is a merge sort with `LinkFieldsComparator`.

## Main definitions

* `PrimitiveType`, `ArtField`: Fields as `LinkFields` reads them.
* `linkFieldsComparator`, `sortFields`: The order of the layout.
* `placeReferences`, `takePadField`, `alignWide`, `placeRest`: The phases
  of the layout.
* `linkFields`: `LinkFields` for instance fields.
* `createReferenceOffsets`, `createReferenceInstanceOffsets`: The
  reference bitmap.
* `linkClass`, `linkHierarchy`: Linking classes after their superclasses.

## Theorems

* `sortFields_grouped`: The sorted fields come in their groups' order.
* `placeRest_aligned`: 64-bit fields laid out from an 8-aligned offset are
  8-aligned.
* `linkFields_layout`: Every field gets one slot, the slots lie one after
  another between the superclass's object size and the class's, and every
  64-bit slot is 8-aligned.
* `linkFields_references`: The reference fields come first, at
  consecutive 4-byte offsets from the superclass's object size, and the
  count of them leaves out only `Reference.referent`.
* `linkHierarchy_append_singleton`: The last class of a hierarchy is linked
  below the classes linked before it.
-/

namespace ArtRuntime

namespace ClassLinker

open Layout

/-- `Primitive::Type`. -/
inductive PrimitiveType
  | kPrimNot
  | kPrimBoolean
  | kPrimByte
  | kPrimChar
  | kPrimShort
  | kPrimInt
  | kPrimLong
  | kPrimFloat
  | kPrimDouble
  | kPrimVoid
  deriving DecidableEq, Repr

/-- An instance field as `LinkFields` reads it through `FieldHelper`: its
    name and the primitive type of its descriptor. -/
structure ArtField where
  name : String
  type : PrimitiveType
  deriving DecidableEq, Repr

/-- `is64bit`: a `long` or a `double`. -/
def PrimitiveType.is64bit (t : PrimitiveType) : Bool :=
  t == .kPrimLong || t == .kPrimDouble

/-- The group `LinkFieldsComparator` sorts by: `0` for references, `1` for
    64-bit fields, `2` for the others. -/
def fieldGroup (t : PrimitiveType) : Nat :=
  if t = .kPrimNot then 0 else if t.is64bit then 1 else 2

/-- `LinkFieldsComparator`: by group, then by name. -/
def linkFieldsComparator (field1 field2 : ArtField) : Bool :=
  let order1 := fieldGroup field1.type
  let order2 := fieldGroup field2.type
  if order1 ≠ order2 then order1 < order2 else field1.name < field2.name

/-- `std::sort` of the fields with `LinkFieldsComparator`. Which order two
    fields that compare neither way end up in is the sort's choice; the
    layout's properties hold for either. -/
def sortFields (fields : List ArtField) : List ArtField :=
  fields.mergeSort fun field1 field2 => !linkFieldsComparator field2 field1

/-- The bytes a field takes: `sizeof(uint64_t)` for a 64-bit field,
    `sizeof(uint32_t)` for the others. -/
def fieldSize (field : ArtField) : Nat :=
  if field.type.is64bit then 8 else 4

/-! ### The phases of `LinkFields` -/

/-- The first loop: the references at the front of the sorted fields, each
    given the next 4 bytes. It returns them with their offsets, the fields
    after them, and the offset after the last. -/
def placeReferences : List ArtField → Nat → List (ArtField × Nat) × List ArtField × Nat
  | [], field_offset => ([], [], field_offset)
  | field :: rest, field_offset =>
      if field.type ≠ .kPrimNot then ([], field :: rest, field_offset)
      else
        let (placed, rest', end_offset) := placeReferences rest (field_offset + 4)
        ((field, field_offset) :: placed, rest', end_offset)

/-- The search for a field to fill a 4-byte hole before the 64-bit fields:
    the first field that is neither `long` nor `double`, taken out of the
    list. `none` is the `CHECK` that no reference is left. -/
def takePadField : List ArtField → Option (Option ArtField × List ArtField)
  | [] => some (none, [])
  | field :: rest =>
      if field.type = .kPrimNot then none
      else if field.type.is64bit then
        (takePadField rest).map fun (found, rest') => (found, field :: rest')
      else some (some field, rest)

/-- The alignment step: when fields are left and the offset is not
    8-aligned, the pad field, if there is one, takes the hole, and the offset
    moves on 4 bytes either way. -/
def alignWide (rest : List ArtField) (field_offset : Nat) :
    Option (List (ArtField × Nat) × List ArtField × Nat) :=
  if rest ≠ [] ∧ field_offset % 8 ≠ 0 then
    (takePadField rest).map fun (found, rest') =>
      (found.toList.map (·, field_offset), rest', field_offset + 4)
  else some ([], rest, field_offset)

/-- The last loop: every field left, given `fieldSize` bytes in turn.
    `none` is the `CHECK` that no reference is left. -/
def placeRest : List ArtField → Nat → Option (List (ArtField × Nat) × Nat)
  | [], field_offset => some ([], field_offset)
  | field :: rest, field_offset =>
      if field.type = .kPrimNot then none
      else
        (placeRest rest (field_offset + fieldSize field)).map fun (placed, size) =>
          ((field, field_offset) :: placed, size)

/-- The descriptor of `java.lang.ref.Reference`. -/
def kReferenceDescriptor : String := "Ljava/lang/ref/Reference;"

/-- The count of reference fields the class records. For
    `java.lang.ref.Reference`, whose fields must all be references with
    `referent` last, it leaves `referent` out so the collector does not scan
    it; `none` is a failed `CHECK`. -/
def referenceFieldCount (descriptor : String) (num_fields num_reference_fields : Nat)
    (ifields : List (ArtField × Nat)) : Option Nat :=
  if descriptor = kReferenceDescriptor then
    if num_reference_fields = num_fields ∧ ifields.getLast?.map (·.1.name) = some "referent" then
      some (num_reference_fields - 1)
    else none
  else some num_reference_fields

/-- What `LinkFields` sets on the class: the `ifields` array in its new
    order with each field's offset, `NumReferenceInstanceFields`, and the
    object size. -/
structure LinkedFields where
  ifields : List (ArtField × Nat)
  numReferenceInstanceFields : Nat
  objectSize : Nat

/-- `ClassLinker::LinkFields(klass, false)` for a class with the given
    descriptor, superclass object size (`none` for a class without a
    superclass) and declared instance fields. -/
def linkFields (descriptor : String) (superObjectSize : Option Nat) (fields : List ArtField) :
    Option LinkedFields := do
  let (refs, rest, field_offset) := placeReferences (sortFields fields) (superObjectSize.getD 0)
  let (pad, rest', aligned_offset) ← alignWide rest field_offset
  let (others, size) ← placeRest rest' aligned_offset
  let ifields := refs ++ pad ++ others
  let num_reference_fields ← referenceFieldCount descriptor fields.length refs.length ifields
  pure ⟨ifields, num_reference_fields, size⟩

/-! ### The reference bitmap -/

/-- `CLASS_WALK_SUPER`: the bitmap value that tells the collector to walk
    the class hierarchy instead. -/
def CLASS_WALK_SUPER : UInt32 := 3

/-- `CLASS_HIGH_BIT`. -/
def CLASS_HIGH_BIT : UInt32 := 0x80000000

/-- `CLASS_CAN_ENCODE_OFFSET`: the offset's word has a bit. -/
def classCanEncodeOffset (byteOffset : Nat) : Bool :=
  byteOffset / 4 < 32

/-- `CLASS_BIT_FROM_OFFSET`: word `n` of the object is bit `31 - n`. -/
def classBitFromOffset (byteOffset : Nat) : UInt32 :=
  CLASS_HIGH_BIT >>> (byteOffset / 4).toUInt32

/-- `ClassLinker::CreateReferenceOffsets`: the bits of the given reference
    fields added to `reference_offsets`, or `CLASS_WALK_SUPER` once one
    cannot be encoded. `none` is a failed `CHECK`. -/
def createReferenceOffsets : List (ArtField × Nat) → UInt32 → Option UInt32
  | [], reference_offsets => some reference_offsets
  | (_, byte_offset) :: rest, reference_offsets =>
      if byte_offset % 4 ≠ 0 then none
      else if classCanEncodeOffset byte_offset then
        let new_bit := classBitFromOffset byte_offset
        if new_bit = 0 then none
        else createReferenceOffsets rest (reference_offsets ||| new_bit)
      else some CLASS_WALK_SUPER

/-- `ClassLinker::CreateReferenceInstanceOffsets`: the superclass's bitmap
    (`0` without a superclass) with the class's own reference fields added;
    a superclass that walks makes the class walk too. -/
def createReferenceInstanceOffsets (superOffsets : Option UInt32) (linked : LinkedFields) :
    Option UInt32 :=
  match superOffsets with
  | some reference_offsets =>
      if reference_offsets = CLASS_WALK_SUPER then some reference_offsets
      else
        createReferenceOffsets (linked.ifields.take linked.numReferenceInstanceFields)
          reference_offsets
  | none => createReferenceOffsets (linked.ifields.take linked.numReferenceInstanceFields) 0

/-! ### Linking a hierarchy -/

/-- A class as the class linker loads it: its descriptor and its declared
    instance fields. -/
structure ClassDef where
  descriptor : String
  ifields : List ArtField

/-- What linking sets on a class that the collector reads. -/
structure LinkedClass where
  descriptor : String
  ifields : List (ArtField × Nat)
  numReferenceInstanceFields : Nat
  objectSize : Nat
  referenceInstanceOffsets : UInt32

/-- The instance-field part of `ClassLinker::LinkClass` after its
    superclass (`none` for a class without one): `LinkInstanceFields`, then
    `CreateReferenceInstanceOffsets`. -/
def linkClass (super_class : Option LinkedClass) (klass : ClassDef) : Option LinkedClass := do
  let linked ← linkFields klass.descriptor (super_class.map (·.objectSize)) klass.ifields
  let reference_offsets ←
    createReferenceInstanceOffsets (super_class.map (·.referenceInstanceOffsets)) linked
  pure ⟨klass.descriptor, linked.ifields, linked.numReferenceInstanceFields, linked.objectSize,
    reference_offsets⟩

/-- A hierarchy linked in order from its root down, each class after its
    superclass. The result lists the classes from the last up to the root,
    the order `GetSuperClass` walks. -/
def linkHierarchy (defs : List ClassDef) : Option (List LinkedClass) :=
  defs.foldlM (fun chain klass => (linkClass chain.head? klass).map (· :: chain)) []

/-! ### The sort -/

theorem fieldGroup_eq_zero_iff {t : PrimitiveType} : fieldGroup t = 0 ↔ t = .kPrimNot := by
  cases t <;> simp [fieldGroup, PrimitiveType.is64bit]

theorem fieldGroup_eq_one_iff {t : PrimitiveType} : fieldGroup t = 1 ↔ t.is64bit = true := by
  cases t <;> simp [fieldGroup, PrimitiveType.is64bit]

theorem fieldGroup_le_two (t : PrimitiveType) : fieldGroup t ≤ 2 := by
  cases t <;> simp [fieldGroup, PrimitiveType.is64bit]

/-- The order the sort uses, `!comp(b, a)`: by group, then by name. -/
theorem sortLe_iff (a b : ArtField) :
    (!linkFieldsComparator b a) = true ↔
      fieldGroup a.type < fieldGroup b.type ∨
        fieldGroup a.type = fieldGroup b.type ∧ a.name ≤ b.name := by
  show (!(if fieldGroup b.type ≠ fieldGroup a.type then decide (fieldGroup b.type < fieldGroup a.type)
    else decide (b.name < a.name))) = true ↔ _
  by_cases h : fieldGroup b.type = fieldGroup a.type
  · -- same group: by name
    rw [if_neg (not_not.mpr h), Bool.not_eq_true', decide_eq_false_iff_not, not_lt]
    constructor
    · intro hle
      exact Or.inr ⟨h.symm, hle⟩
    · rintro (hlt | ⟨_, hle⟩)
      · omega
      · exact hle
  · rw [if_pos h, Bool.not_eq_true', decide_eq_false_iff_not]
    omega

/-- The merge sort's order is a total preorder, so the sorted fields come
    in the order of their groups. -/
theorem sortFields_grouped (fields : List ArtField) :
    (sortFields fields).Pairwise fun a b => fieldGroup a.type ≤ fieldGroup b.type := by
  have htrans : ∀ a b c : ArtField, (!linkFieldsComparator b a) = true →
      (!linkFieldsComparator c b) = true → (!linkFieldsComparator c a) = true := by
    intro a b c hab hbc
    rw [sortLe_iff] at hab hbc ⊢
    rcases hab with hab | ⟨hab, hab'⟩ <;> rcases hbc with hbc | ⟨hbc, hbc'⟩
    · exact Or.inl (by omega)
    · exact Or.inl (by omega)
    · exact Or.inl (by omega)
    · exact Or.inr ⟨by omega, le_trans hab' hbc'⟩
  have htotal : ∀ a b : ArtField,
      ((!linkFieldsComparator b a) || (!linkFieldsComparator a b)) = true := by
    intro a b
    rw [Bool.or_eq_true, sortLe_iff, sortLe_iff]
    rcases Nat.lt_trichotomy (fieldGroup a.type) (fieldGroup b.type) with h | h | h
    · exact Or.inl (Or.inl h)
    · rcases le_total a.name b.name with hn | hn
      · exact Or.inl (Or.inr ⟨h, hn⟩)
      · exact Or.inr (Or.inr ⟨h.symm, hn⟩)
    · exact Or.inr (Or.inl h)
  refine (List.pairwise_mergeSort htrans htotal fields).imp ?_
  intro a b hab
  rcases (sortLe_iff a b).mp hab with h | ⟨h, _⟩ <;> omega

theorem sortFields_perm (fields : List ArtField) : (sortFields fields).Perm fields :=
  List.mergeSort_perm _ _

/-! ### The phases -/

section Phases

/-- The three parts `placeReferences` returns. -/
theorem placeReferences_split (l : List ArtField) (off : Nat) :
    (placeReferences l off).1.map Prod.fst ++ (placeReferences l off).2.1 = l ∧
      (∀ p ∈ (placeReferences l off).1, p.1.type = .kPrimNot) ∧
      (placeReferences l off).1.map Prod.snd = List.range' off (placeReferences l off).1.length 4 ∧
      (placeReferences l off).2.2 = off + 4 * (placeReferences l off).1.length ∧
      (∀ f ∈ (placeReferences l off).2.1.head?, f.type ≠ .kPrimNot) := by
  induction l generalizing off with
  | nil => simp [placeReferences]
  | cons field rest ih =>
      by_cases h : field.type = .kPrimNot
      · obtain ⟨h1, h2, h3, h4, h5⟩ := ih (off + 4)
        rw [placeReferences, if_neg (not_not.mpr h)]
        simp only [List.map_cons, List.cons_append, List.length_cons, List.mem_cons,
          forall_eq_or_imp]
        refine ⟨by rw [h1], ⟨h, h2⟩, ?_, by rw [h4]; omega, h5⟩
        rw [h3, List.range'_succ]
      · simp [placeReferences, h]

/-- The references take consecutive 4-byte slots. -/
theorem placeReferences_packed (l : List ArtField) (off : Nat) :
    Packed fieldSize (placeReferences l off).1 off (placeReferences l off).2.2 := by
  induction l generalizing off with
  | nil => simp [placeReferences]
  | cons field rest ih =>
      by_cases h : field.type = .kPrimNot
      · have hsize : fieldSize field = 4 := by simp [fieldSize, PrimitiveType.is64bit, h]
        rw [placeReferences, if_neg (not_not.mpr h)]
        simp only [packed_cons, le_refl, true_and, hsize]
        exact ih (off + 4)
      · simp [placeReferences, h]

/-- In fields sorted by group, no reference follows a field that is not
    one. -/
theorem no_reference_after {l : List ArtField}
    (hgrouped : l.Pairwise fun a b => fieldGroup a.type ≤ fieldGroup b.type)
    (hhead : ∀ f ∈ l.head?, f.type ≠ .kPrimNot) : ∀ f ∈ l, f.type ≠ .kPrimNot := by
  cases l with
  | nil => simp
  | cons g rest =>
      have hg : g.type ≠ .kPrimNot := hhead g rfl
      intro f hf hfref
      rcases List.mem_cons.mp hf with rfl | hf'
      · exact hg hfref
      · have hle := List.rel_of_pairwise_cons hgrouped hf'
        have hf0 : fieldGroup f.type = 0 := fieldGroup_eq_zero_iff.mpr hfref
        have hg0 : fieldGroup g.type ≠ 0 := fun h0 => hg (fieldGroup_eq_zero_iff.mp h0)
        omega

/-- Without references, the search for a pad field succeeds; what it takes
    out is not 64-bit, and what is left is the rest in order. -/
theorem takePadField_spec : ∀ (l : List ArtField), (∀ f ∈ l, f.type ≠ .kPrimNot) →
    ∃ found rest', takePadField l = some (found, rest') ∧ (found.toList ++ rest').Perm l ∧
      rest'.Sublist l ∧ ∀ f ∈ found, f.type.is64bit = false
  | [], _ => ⟨none, [], rfl, by simp, List.Sublist.slnil, by simp⟩
  | field :: rest, hnoref => by
      have hfield := hnoref field List.mem_cons_self
      by_cases hwide : field.type.is64bit
      · obtain ⟨found, rest', htake, hperm, hsub, hfound⟩ :=
          takePadField_spec rest fun f hf => hnoref f (List.mem_cons_of_mem _ hf)
        refine ⟨found, field :: rest', by simp [takePadField, hfield, hwide, htake], ?_,
          hsub.cons_cons field, hfound⟩
        -- the 64-bit field kept in front moves past the one taken out
        exact List.perm_middle.trans (hperm.cons field)
      · refine ⟨some field, rest, by simp [takePadField, hfield, hwide], by simp,
          List.sublist_cons_self field rest, ?_⟩
        simpa using hwide

/-- Without references, the last loop succeeds: it lays out every field in
    order, one slot after another, and ends after all their sizes. -/
theorem placeRest_spec : ∀ (l : List ArtField) (off : Nat), (∀ f ∈ l, f.type ≠ .kPrimNot) →
    ∃ placed size, placeRest l off = some (placed, size) ∧ placed.map Prod.fst = l ∧
      Packed fieldSize placed off size ∧ size = off + (l.map fieldSize).sum
  | [], off, _ => ⟨[], off, rfl, rfl, by simp, by simp⟩
  | field :: rest, off, hnoref => by
      obtain ⟨placed, size, hplace, hmap, hpacked, hsize⟩ :=
        placeRest_spec rest (off + fieldSize field) fun f hf => hnoref f (List.mem_cons_of_mem _ hf)
      refine ⟨(field, off) :: placed, size, ?_, by simp [hmap], ⟨le_refl off, hpacked⟩, ?_⟩
      · simp [placeRest, hnoref field List.mem_cons_self, hplace]
      · rw [hsize, List.map_cons, List.sum_cons]
        omega

/-- Fields in group order laid out from an offset that is 8-aligned
    whenever a 64-bit field is among them: every 64-bit field is 8-aligned.
    Each 64-bit field moves the offset on by 8, and once a 32-bit field is
    placed no 64-bit field follows. -/
theorem placeRest_aligned : ∀ (l : List ArtField) (off : Nat),
    (l.Pairwise fun a b => fieldGroup a.type ≤ fieldGroup b.type) →
    ((∃ f ∈ l, f.type.is64bit = true) → off % 8 = 0) →
    ∀ placed size, placeRest l off = some (placed, size) →
      ∀ p ∈ placed, p.1.type.is64bit = true → p.2 % 8 = 0
  | [], _, _, _, placed, size, h => by
      simp only [placeRest, Option.some.injEq, Prod.mk.injEq] at h
      rw [← h.1]
      simp
  | field :: rest, off, hgrouped, haligned, placed, size, h => by
      simp only [placeRest] at h
      split at h
      · cases h
      · obtain ⟨⟨placed', size'⟩, hrest, heq⟩ := Option.map_eq_some_iff.mp h
        simp only [Prod.mk.injEq] at heq
        rw [← heq.1]
        have hrest_aligned : (∃ f ∈ rest, f.type.is64bit = true) →
            (off + fieldSize field) % 8 = 0 := by
          rintro ⟨g, hg, hgwide⟩
          by_cases hwide : field.type.is64bit
          · have := haligned ⟨field, List.mem_cons_self, hwide⟩
            simp only [fieldSize, hwide, ↓reduceIte]
            omega
          · -- a 32-bit field comes after every 64-bit one
            have hle := List.rel_of_pairwise_cons hgrouped hg
            have hfield : fieldGroup field.type ≠ 1 := fun h1 =>
              hwide (fieldGroup_eq_one_iff.mp h1)
            have hfield0 : fieldGroup field.type ≠ 0 := fun h0 =>
              (by assumption : ¬ field.type = .kPrimNot) (fieldGroup_eq_zero_iff.mp h0)
            have hg1 : fieldGroup g.type = 1 := fieldGroup_eq_one_iff.mpr hgwide
            have := fieldGroup_le_two field.type
            omega
        intro p hp hpwide
        rcases List.mem_cons.mp hp with rfl | hp'
        · exact haligned ⟨field, List.mem_cons_self, hpwide⟩
        · exact placeRest_aligned rest _ hgrouped.of_cons hrest_aligned placed' size' hrest p hp'
            hpwide

/-- The alignment step on fields without references, from a 4-aligned
    offset: the pad it places is at most one 32-bit field in a 4-byte slot,
    the fields left are the others in order, and the offset after it is
    8-aligned whenever a 64-bit field is left. -/
theorem alignWide_spec (rest : List ArtField) (off : Nat) (hoff : off % 4 = 0)
    (hnoref : ∀ f ∈ rest, f.type ≠ .kPrimNot) :
    ∃ pad rest' off', alignWide rest off = some (pad, rest', off') ∧
      (pad.map Prod.fst ++ rest').Perm rest ∧ rest'.Sublist rest ∧
      Packed fieldSize pad off off' ∧ (∀ p ∈ pad, p.1.type.is64bit = false) ∧ off' % 4 = 0 ∧
      ((∃ f ∈ rest', f.type.is64bit = true) → off' % 8 = 0) := by
  by_cases hcond : rest ≠ [] ∧ off % 8 ≠ 0
  · -- the hole is filled, or padded, and the offset moves on to 8-alignment
    obtain ⟨found, rest', htake, hperm, hsub, hfound⟩ := takePadField_spec rest hnoref
    refine ⟨found.toList.map (·, off), rest', off + 4, ?_, ?_, hsub, ?_, ?_, by omega,
      fun _ => by omega⟩
    · simp [alignWide, hcond, htake]
    · simpa [List.map_map, Function.comp_def] using hperm
    · cases found with
      | none => simp
      | some f =>
          have hf : fieldSize f = 4 := by simp [fieldSize, hfound f rfl]
          simp [hf]
    · intro p hp
      cases found with
      | none => simp at hp
      | some f =>
          simp only [Option.toList_some, List.map_cons, List.map_nil, List.mem_singleton] at hp
          rw [hp]
          exact hfound f rfl
  · -- nothing to align: no field is left, or the offset is 8-aligned already
    refine ⟨[], rest, off, by simp [alignWide, hcond], by simp, List.Sublist.refl rest,
      by simp, by simp, hoff, ?_⟩
    rintro ⟨f, hf, _⟩
    have hne : rest ≠ [] := List.ne_nil_of_mem hf
    by_contra hmod
    exact hcond ⟨hne, hmod⟩

end Phases

/-! ### The layout of one class -/

/-- The phases of a successful `linkFields`, by name. -/
theorem linkFields_eq_some {descriptor : String} {superObjectSize : Option Nat}
    {fields : List ArtField} {linked : LinkedFields}
    (h : linkFields descriptor superObjectSize fields = some linked) :
    ∃ pad rest' aligned_offset others,
      alignWide (placeReferences (sortFields fields) (superObjectSize.getD 0)).2.1
          (placeReferences (sortFields fields) (superObjectSize.getD 0)).2.2 =
        some (pad, rest', aligned_offset) ∧
      placeRest rest' aligned_offset = some (others, linked.objectSize) ∧
      linked.ifields = (placeReferences (sortFields fields) (superObjectSize.getD 0)).1 ++ pad ++
        others ∧
      referenceFieldCount descriptor fields.length
          (placeReferences (sortFields fields) (superObjectSize.getD 0)).1.length linked.ifields =
        some linked.numReferenceInstanceFields := by
  rcases hp : placeReferences (sortFields fields) (superObjectSize.getD 0) with ⟨refs, rest, off⟩
  simp only [linkFields, hp, Option.bind_eq_bind, Option.bind_eq_some_iff, Option.pure_def,
    Option.some.injEq] at h
  obtain ⟨⟨pad, rest', aligned⟩, halign, ⟨others, size⟩, hplace, n, hcount, rfl⟩ := h
  exact ⟨pad, rest', aligned, others, halign, hplace, rfl, hcount⟩

/-- The count `LinkFields` records: every reference, or, for
    `java.lang.ref.Reference` with only references and `referent` last, one
    fewer. -/
theorem referenceFieldCount_eq_some {descriptor : String} {num_fields num_reference_fields : Nat}
    {ifields : List (ArtField × Nat)} {n : Nat}
    (h : referenceFieldCount descriptor num_fields num_reference_fields ifields = some n) :
    n = num_reference_fields ∨
      descriptor = kReferenceDescriptor ∧ num_reference_fields = num_fields ∧
        ifields.getLast?.map (·.1.name) = some "referent" ∧ n = num_reference_fields - 1 := by
  unfold referenceFieldCount at h
  split at h
  · rename_i hdesc
    split at h
    · rename_i hall
      exact Or.inr ⟨hdesc, hall.1, hall.2, (Option.some.inj h).symm⟩
    · cases h
  · exact Or.inl (Option.some.inj h).symm

/-- What follows the references in the sorted fields is in group order and
    holds no reference. -/
theorem rest_after_references (fields : List ArtField) (off : Nat) :
    ((placeReferences (sortFields fields) off).2.1.Pairwise fun a b =>
        fieldGroup a.type ≤ fieldGroup b.type) ∧
      ∀ f ∈ (placeReferences (sortFields fields) off).2.1, f.type ≠ .kPrimNot := by
  obtain ⟨hsplit, -, -, -, hhead⟩ := placeReferences_split (sortFields fields) off
  have hgrouped := sortFields_grouped fields
  rw [← hsplit] at hgrouped
  have hrest := (List.pairwise_append.mp hgrouped).2.1
  exact ⟨hrest, no_reference_after hrest hhead⟩

/-- The references placed first are the reference fields of the class. -/
theorem references_perm_filter (fields : List ArtField) (off : Nat) :
    ((placeReferences (sortFields fields) off).1.map Prod.fst).Perm
      (fields.filter fun f => f.type == .kPrimNot) := by
  obtain ⟨hsplit, hrefs, -, -, -⟩ := placeReferences_split (sortFields fields) off
  obtain ⟨-, hnoref⟩ := rest_after_references fields off
  have hsorted := (sortFields_perm fields).filter fun f => f.type == .kPrimNot
  have hnil : (placeReferences (sortFields fields) off).2.1.filter (fun f => f.type == .kPrimNot) =
      [] := List.filter_eq_nil_iff.mpr fun f hf => by simpa using hnoref f hf
  have hall : ((placeReferences (sortFields fields) off).1.map Prod.fst).filter
      (fun f => f.type == .kPrimNot) = (placeReferences (sortFields fields) off).1.map Prod.fst := by
    refine List.filter_eq_self.mpr fun f hf => ?_
    obtain ⟨q, hq, rfl⟩ := List.mem_map.mp hf
    simpa using hrefs q hq
  rw [← hsplit, List.filter_append, hnil, hall, List.append_nil] at hsorted
  exact hsorted

theorem sum_fieldSize_mod (l : List ArtField) : (l.map fieldSize).sum % 4 = 0 := by
  induction l with
  | nil => rfl
  | cons f rest ih =>
      have hf : fieldSize f % 4 = 0 := by
        unfold fieldSize
        split <;> rfl
      rw [List.map_cons, List.sum_cons]
      omega

/-- The layout of one class, from a 4-aligned superclass object size: every
    declared field gets one slot, the slots lie one after another between the
    superclass's object size and the class's, every 64-bit slot is
    8-aligned, and the object size is 4-aligned again. -/
theorem linkFields_layout {descriptor : String} {superObjectSize : Option Nat}
    {fields : List ArtField} {linked : LinkedFields} (hsuper : superObjectSize.getD 0 % 4 = 0)
    (h : linkFields descriptor superObjectSize fields = some linked) :
    (linked.ifields.map Prod.fst).Perm fields ∧
      Packed fieldSize linked.ifields (superObjectSize.getD 0) linked.objectSize ∧
      (∀ p ∈ linked.ifields, p.1.type.is64bit = true → p.2 % 8 = 0) ∧
      linked.objectSize % 4 = 0 := by
  obtain ⟨pad, rest', off', others, halign, hplace, hifields, -⟩ := linkFields_eq_some h
  obtain ⟨hsplit, hrefs, -, hend, -⟩ :=
    placeReferences_split (sortFields fields) (superObjectSize.getD 0)
  obtain ⟨hgrouped, hnoref⟩ := rest_after_references fields (superObjectSize.getD 0)
  have hoff : (placeReferences (sortFields fields) (superObjectSize.getD 0)).2.2 % 4 = 0 := by
    rw [hend]
    omega
  -- the alignment step and the last loop, by their specifications
  obtain ⟨pad₀, rest₀, off₀, halign₀, hperm, hsub, hpad, hpadwide, hoff', hwide⟩ :=
    alignWide_spec _ _ hoff hnoref
  rw [halign₀, Option.some.injEq, Prod.mk.injEq, Prod.mk.injEq] at halign
  obtain ⟨rfl, rfl, rfl⟩ := halign
  obtain ⟨others₀, size, hplace₀, hmap, hpacked, hsize⟩ :=
    placeRest_spec rest₀ off₀ fun f hf => hnoref f (hsub.subset hf)
  rw [hplace₀, Option.some.injEq, Prod.mk.injEq] at hplace
  obtain ⟨rfl, hsz⟩ := hplace
  refine ⟨?_, ?_, ?_, ?_⟩
  · -- every declared field gets exactly one slot
    rw [hifields, List.map_append, List.map_append, hmap, List.append_assoc]
    refine (List.Perm.append_left _ hperm).trans ?_
    rw [hsplit]
    exact sortFields_perm fields
  · rw [hifields, ← hsz, List.append_assoc]
    exact (placeReferences_packed _ _).append (hpad.append hpacked)
  · intro p hp hpwide
    rw [hifields, List.mem_append, List.mem_append] at hp
    rcases hp with (hp | hp) | hp
    · -- a reference is never 64-bit
      simp [hrefs p hp, PrimitiveType.is64bit] at hpwide
    · simp [hpadwide p hp] at hpwide
    · exact placeRest_aligned rest₀ off₀ (hgrouped.sublist hsub) hwide others₀ size hplace₀ p hp
        hpwide
  · rw [← hsz, hsize]
    have := sum_fieldSize_mod rest₀
    omega

/-- The references of one class: the first `NumReferenceInstanceFields`
    entries of `ifields` sit at consecutive 4-byte offsets from the
    superclass's object size, and they are the class's reference fields but
    for `referent` in `java.lang.ref.Reference`. -/
theorem linkFields_references {descriptor : String} {superObjectSize : Option Nat}
    {fields : List ArtField} {linked : LinkedFields}
    (h : linkFields descriptor superObjectSize fields = some linked) :
    (linked.ifields.take linked.numReferenceInstanceFields).map Prod.snd =
        List.range' (superObjectSize.getD 0) linked.numReferenceInstanceFields 4 ∧
      ∃ excluded : List ArtField,
        ((linked.ifields.take linked.numReferenceInstanceFields).map Prod.fst ++ excluded).Perm
            (fields.filter fun f => f.type == .kPrimNot) ∧
          (excluded = [] ∨
            descriptor = kReferenceDescriptor ∧ excluded.map (·.name) = ["referent"]) := by
  obtain ⟨pad, rest', off', others, halign, hplace, hifields, hcount⟩ := linkFields_eq_some h
  obtain ⟨hsplit, -, hoffs, -, -⟩ :=
    placeReferences_split (sortFields fields) (superObjectSize.getD 0)
  have hperm := references_perm_filter fields (superObjectSize.getD 0)
  set refs := (placeReferences (sortFields fields) (superObjectSize.getD 0)).1 with hrefs_def
  -- the count is that of the references, less one for `Reference`
  have hle : linked.numReferenceInstanceFields ≤ refs.length := by
    rcases referenceFieldCount_eq_some hcount with hn | ⟨-, -, -, hn⟩ <;> omega
  have htake : linked.ifields.take linked.numReferenceInstanceFields =
      refs.take linked.numReferenceInstanceFields := by
    rw [hifields, List.append_assoc, List.take_append_of_le_length hle]
  refine ⟨?_, ?_⟩
  · rw [htake, List.map_take, hoffs, List.take_range'_of_length_ge (by simpa using hle)]
  · rcases referenceFieldCount_eq_some hcount with hn | ⟨hdesc, hlen, hlast, hn⟩
    · refine ⟨[], ?_, Or.inl rfl⟩
      rw [htake, hn, List.take_length, List.append_nil]
      exact hperm
    · -- all fields are references, so nothing follows them
      have hrest : (placeReferences (sortFields fields) (superObjectSize.getD 0)).2.1 = [] := by
        have := congrArg List.length hsplit
        rw [List.length_append, List.length_map, (sortFields_perm fields).length_eq] at this
        exact List.eq_nil_of_length_eq_zero (by omega)
      rw [hrest] at halign
      simp only [alignWide, ne_eq, not_true_eq_false, false_and, ↓reduceIte,
        Option.some.injEq, Prod.mk.injEq] at halign
      obtain ⟨rfl, rfl, rfl⟩ := halign
      simp only [placeRest, Option.some.injEq, Prod.mk.injEq] at hplace
      obtain ⟨rfl, -⟩ := hplace
      rw [List.append_nil, List.append_nil] at hifields
      -- `referent`, the last reference, is the one left out
      obtain ⟨p, hp, hname⟩ := Option.map_eq_some_iff.mp hlast
      obtain ⟨ys, hys⟩ := List.getLast?_eq_some_iff.mp hp
      refine ⟨[p.1], ?_, Or.inr ⟨hdesc, by simp [hname]⟩⟩
      have hys' : refs = ys ++ [p] := by rw [← hifields, hys]
      rw [htake, hn, hys', List.length_append, List.length_singleton, Nat.add_sub_cancel,
        List.take_left, show [p.1] = [p].map Prod.fst from rfl, ← List.map_append, ← hys']
      exact hperm

/-! ### Linking a hierarchy -/

/-- The two steps of a successful `linkClass`: the field layout, then the
    bitmap. -/
theorem linkClass_eq_some {super_class : Option LinkedClass} {c : ClassDef}
    {klass : LinkedClass} (h : linkClass super_class c = some klass) :
    ∃ linked w, linkFields c.descriptor (super_class.map (·.objectSize)) c.ifields = some linked ∧
      createReferenceInstanceOffsets (super_class.map (·.referenceInstanceOffsets)) linked =
        some w ∧
      klass = ⟨c.descriptor, linked.ifields, linked.numReferenceInstanceFields,
        linked.objectSize, w⟩ := by
  simp only [linkClass, Option.bind_eq_bind, Option.bind_eq_some_iff, Option.pure_def,
    Option.some.injEq] at h
  obtain ⟨linked, hlink, w, hw, rfl⟩ := h
  exact ⟨linked, w, hlink, hw, rfl⟩

/-- The last class of a hierarchy is linked below the hierarchy linked
    before it. -/
theorem linkHierarchy_append_singleton {defs : List ClassDef} {c : ClassDef}
    {chain : List LinkedClass} (h : linkHierarchy (defs ++ [c]) = some chain) :
    ∃ supers klass, linkHierarchy defs = some supers ∧ linkClass supers.head? c = some klass ∧
      chain = klass :: supers := by
  unfold linkHierarchy at h ⊢
  rw [List.foldlM_append] at h
  simp only [List.foldlM_cons, List.foldlM_nil, Option.bind_eq_bind, Option.bind_eq_some_iff,
    Option.pure_def] at h
  obtain ⟨supers, hsupers, next, hnext, hlast⟩ := h
  obtain ⟨klass, hklass, rfl⟩ := Option.map_eq_some_iff.mp hnext
  exact ⟨supers, klass, hsupers, hklass, (Option.some.inj hlast).symm⟩

end ClassLinker

end ArtRuntime
