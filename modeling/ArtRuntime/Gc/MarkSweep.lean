import ArtRuntime.ClassLinker.LinkFields
import ArtRuntime.Core.BitScan

/-!
# Scanning the Reference Fields of an Instance

`MarkSweep::VisitFieldsReferences` finds the reference fields of an object
from its class. When the class's reference bitmap is not `CLASS_WALK_SUPER`,
it clears the top bit (the class pointer, marked elsewhere) and visits the
word of each set bit, found by `CLZ` from the top; otherwise it walks up the
class hierarchy and visits the first `NumReferenceInstanceFields` fields of
each class.

The bitmap of a class is built at link time from its superclass's, so what
it encodes is a property of the whole hierarchy: it holds for the root, and
linking one more class keeps it (`chainInv_linkClass`). Whichever way the
collector then reads an instance, it visits the offsets the hierarchy
records for its reference fields, the class pointer at offset `0` apart.

## Main definitions

* `chainReferenceOffsets`: The offsets of the reference fields a hierarchy
  records, class by class up to the root.
* `visitBitmap`, `visitFieldsReferences`, `visitInstanceFieldsReferences`:
  The collector's scan.
* `Encodes`: A bitmap holds exactly the word offsets of a list.
* `ChainInv`: What linking keeps for a hierarchy.
* `InstanceLayout`: What the layout of a class and the scan of its
  instances must satisfy.

## Theorems

* `createReferenceOffsets_encodes`: Adding fields to a bitmap encodes them
  too, or gives up with `CLASS_WALK_SUPER`.
* `mem_visitBitmap`: The bitmap loop visits the word of every set bit.
* `chainInv_linkHierarchy`: Every linked hierarchy keeps the invariant.
* `visitInstanceFieldsReferences_mem`: The collector visits the recorded
  reference offsets, both ways.
* `linkHierarchy_instance_fields`: The layout of the last class linked and
  the offsets the collector visits in its instances.
-/

namespace ArtRuntime

namespace Gc

open ClassLinker Layout WordBits

/-- The offsets of the reference fields a hierarchy records: the first
    `NumReferenceInstanceFields` fields of each class, from the class up to
    the root. -/
def chainReferenceOffsets (chain : List LinkedClass) : List Nat :=
  chain.flatMap fun klass => (klass.ifields.take klass.numReferenceInstanceFields).map Prod.snd

/-- The bitmap loop of `VisitFieldsReferences`: while bits are left, visit
    the word `CLZ` names and clear its bit. It ends within 32 rounds;
    `fuel` bounds them. -/
def visitBitmap : Nat → UInt32 → List Nat
  | 0, _ => []
  | fuel + 1, ref_offsets =>
      if ref_offsets = 0 then []
      else
        let right_shift := clz ref_offsets
        right_shift * 4 ::
          visitBitmap fuel (ref_offsets &&& ~~~(CLASS_HIGH_BIT >>> right_shift.toUInt32))

/-- `MarkSweep::VisitFieldsReferences` for an instance of the first class of
    `chain`: the offsets it visits, in order. With a bitmap, the class bit is
    cleared first (the collector is not `MOVING_COLLECTOR`); with
    `CLASS_WALK_SUPER`, it walks the hierarchy. -/
def visitFieldsReferences (chain : List LinkedClass) (ref_offsets : UInt32) : List Nat :=
  if ref_offsets ≠ CLASS_WALK_SUPER then
    visitBitmap 32 (ref_offsets &&& (((1 : UInt32) <<< 31) - 1))
  else
    chain.flatMap fun klass =>
      (klass.ifields.take klass.numReferenceInstanceFields).map Prod.snd

/-- `MarkSweep::VisitInstanceFieldsReferences`: the scan with the class's
    own bitmap. -/
def visitInstanceFieldsReferences : List LinkedClass → List Nat
  | [] => []
  | klass :: supers => visitFieldsReferences (klass :: supers) klass.referenceInstanceOffsets

/-! ### The bitmap -/

/-- `w` encodes `offs`: every offset is a word below byte `128`, and bit
    `31 - n` of `w` is set exactly when `4 * n` is one of them. -/
def Encodes (w : UInt32) (offs : List Nat) : Prop :=
  (∀ o ∈ offs, o % 4 = 0 ∧ o < 128) ∧
    ∀ i, w.toNat.testBit i = true ↔ i < 32 ∧ 4 * (31 - i) ∈ offs

theorem encodes_zero : Encodes 0 [] := by
  refine ⟨by simp, fun i => ?_⟩
  simp

/-- Encoding depends only on which offsets are in the list. -/
theorem Encodes.congr {w : UInt32} {offs offs' : List Nat} (h : Encodes w offs)
    (hmem : ∀ o, o ∈ offs ↔ o ∈ offs') : Encodes w offs' := by
  refine ⟨fun o ho => h.1 o ((hmem o).mpr ho), fun i => ?_⟩
  rw [h.2 i, hmem]

/-- Setting the bit of one more word offset. -/
theorem Encodes.or_bit {w : UInt32} {offs : List Nat} (h : Encodes w offs) {o : Nat}
    (ho : o % 4 = 0) (hcan : o / 4 < 32) : Encodes (w ||| classBitFromOffset o) (o :: offs) := by
  refine ⟨?_, fun i => ?_⟩
  · intro o' ho'
    rcases List.mem_cons.mp ho' with rfl | ho'
    · exact ⟨ho, by omega⟩
    · exact h.1 o' ho'
  · rw [UInt32.toNat_or, Nat.testBit_or, classBitFromOffset, CLASS_HIGH_BIT,
      testBit_highBit _ _ hcan, Bool.or_eq_true, h.2 i, List.mem_cons]
    constructor
    · rintro (⟨hi, hmem⟩ | hi)
      · exact ⟨hi, Or.inr hmem⟩
      · have := decide_eq_true_iff.mp hi
        exact ⟨by omega, Or.inl (by omega)⟩
    · rintro ⟨hi, heq | hmem⟩
      · exact Or.inr (decide_eq_true_iff.mpr (by omega))
      · exact Or.inl ⟨hi, hmem⟩

/-- `CreateReferenceOffsets` on fields at 4-aligned offsets: the result
    encodes their offsets with those already encoded, or it is
    `CLASS_WALK_SUPER`. -/
theorem createReferenceOffsets_encodes : ∀ (refs : List (ArtField × Nat)) (w : UInt32)
    (offs : List Nat), Encodes w offs → (∀ p ∈ refs, p.2 % 4 = 0) →
    ∀ w', createReferenceOffsets refs w = some w' →
      w' = CLASS_WALK_SUPER ∨ Encodes w' (refs.map Prod.snd ++ offs)
  | [], w, offs, h, _, w', hw => by
      simp only [createReferenceOffsets, Option.some.injEq] at hw
      rw [← hw]
      exact Or.inr (by simpa using h)
  | (field, byte_offset) :: rest, w, offs, h, haligned, w', hw => by
      have ho : byte_offset % 4 = 0 := haligned (field, byte_offset) List.mem_cons_self
      simp only [createReferenceOffsets, ho, ne_eq, not_true_eq_false, ↓reduceIte] at hw
      split at hw
      · rename_i hcan
        split at hw
        · cases hw
        · -- one more bit, and the rest of the fields after it
          have hcan' : byte_offset / 4 < 32 := by simpa [classCanEncodeOffset] using hcan
          rcases createReferenceOffsets_encodes rest _ (byte_offset :: offs) (h.or_bit ho hcan')
              (fun p hp => haligned p (List.mem_cons_of_mem _ hp)) w' hw with hwalk | henc
          · exact Or.inl hwalk
          · refine Or.inr (henc.congr fun o => ?_)
            simp only [List.mem_append, List.mem_cons, List.map_cons]
            tauto
      · exact Or.inl (Option.some.inj hw).symm

/-! ### The scan -/

/-- The bitmap loop, given more rounds than the position of the highest
    set bit, visits the word of every set bit and nothing else. -/
theorem mem_visitBitmap : ∀ (fuel : Nat) (x : UInt32), (x = 0 ∨ x.toNat.log2 < fuel) →
    ∀ o, o ∈ visitBitmap fuel x ↔ ∃ i, x.toNat.testBit i = true ∧ o = (31 - i) * 4
  | 0, x, hfuel, o => by
      have hx : x = 0 := hfuel.resolve_right (Nat.not_lt_zero _)
      subst hx
      simp [visitBitmap]
  | fuel + 1, x, hfuel, o => by
      by_cases hx : x = 0
      · subst hx
        simp [visitBitmap]
      · -- the highest set bit now, the others after it is cleared
        have hlog : x.toNat.log2 < fuel + 1 := hfuel.resolve_left hx
        have hcleared : x &&& ~~~((0x80000000 : UInt32) >>> (clz x).toUInt32) = 0 ∨
            (x &&& ~~~((0x80000000 : UInt32) >>> (clz x).toUInt32)).toNat.log2 < fuel := by
          by_cases hy : x &&& ~~~((0x80000000 : UInt32) >>> (clz x).toUInt32) = 0
          · exact Or.inl hy
          · have := log2_clearHighest_lt x hy
            omega
        have ih := mem_visitBitmap fuel _ hcleared o
        have htop := Nat.testBit_log2 (toNat_ne_zero hx)
        have hclz : clz x = 31 - x.toNat.log2 := rfl
        rw [visitBitmap, if_neg hx]
        simp only [CLASS_HIGH_BIT, List.mem_cons, ih, testBit_clearHighest, Bool.and_eq_true,
          bne_iff_ne, ne_eq]
        constructor
        · rintro (rfl | ⟨i, ⟨hi, _⟩, rfl⟩)
          · exact ⟨x.toNat.log2, htop, by rw [hclz]⟩
          · exact ⟨i, hi, rfl⟩
        · rintro ⟨i, hi, rfl⟩
          by_cases he : i = x.toNat.log2
          · left
            rw [hclz, he]
          · exact Or.inr ⟨i, ⟨hi, he⟩, rfl⟩

/-- What linking keeps for a hierarchy, listed from its last class up: the
    last class's object size is 4-aligned, every recorded reference offset
    is 4-aligned, and the last class's bitmap walks or encodes them all. -/
structure ChainInv (chain : List LinkedClass) : Prop where
  size_aligned : ∀ klass ∈ chain.head?, klass.objectSize % 4 = 0
  offsets_aligned : ∀ o ∈ chainReferenceOffsets chain, o % 4 = 0
  bitmap : ∀ klass ∈ chain.head?, klass.referenceInstanceOffsets = CLASS_WALK_SUPER ∨
    Encodes klass.referenceInstanceOffsets (chainReferenceOffsets chain)

theorem chainInv_nil : ChainInv [] :=
  ⟨by simp, by simp [chainReferenceOffsets], by simp⟩

theorem superObjectSize_aligned {chain : List LinkedClass} (hinv : ChainInv chain) :
    (chain.head?.map (·.objectSize)).getD 0 % 4 = 0 := by
  cases chain with
  | nil => rfl
  | cons klass supers => exact hinv.size_aligned klass rfl

/-- Linking one more class below a hierarchy keeps the invariant: the new
    class starts at the 4-aligned size of its superclass, and its bitmap is
    its superclass's with its own references added. -/
theorem chainInv_linkClass {chain : List LinkedClass} {c : ClassDef} {klass : LinkedClass}
    (hinv : ChainInv chain) (h : linkClass chain.head? c = some klass) :
    ChainInv (klass :: chain) := by
  obtain ⟨linked, w, hlink, hw, rfl⟩ := linkClass_eq_some h
  have hsuper := superObjectSize_aligned hinv
  obtain ⟨-, -, -, hsize⟩ := linkFields_layout hsuper hlink
  obtain ⟨hoffs, -⟩ := linkFields_references hlink
  -- the class's own reference offsets step by 4 from a 4-aligned start
  have hown : ∀ o ∈ (linked.ifields.take linked.numReferenceInstanceFields).map Prod.snd,
      o % 4 = 0 := by
    intro o ho
    rw [hoffs, List.mem_range'] at ho
    obtain ⟨i, -, rfl⟩ := ho
    omega
  have hchain : chainReferenceOffsets (⟨c.descriptor, linked.ifields,
      linked.numReferenceInstanceFields, linked.objectSize, w⟩ :: chain) =
      (linked.ifields.take linked.numReferenceInstanceFields).map Prod.snd ++
        chainReferenceOffsets chain := by
    simp [chainReferenceOffsets]
  refine ⟨fun k hk => ?_, ?_, fun k hk => ?_⟩
  · cases hk
    exact hsize
  · rw [hchain]
    intro o ho
    rcases List.mem_append.mp ho with ho | ho
    · exact hown o ho
    · exact hinv.offsets_aligned o ho
  · cases hk
    rw [hchain]
    unfold createReferenceInstanceOffsets at hw
    cases chain with
    | nil =>
        -- the root starts from an empty bitmap
        have := createReferenceOffsets_encodes _ 0 [] encodes_zero
          (fun p hp => hown p.2 (List.mem_map_of_mem hp)) w hw
        simpa [chainReferenceOffsets, List.map_take] using this
    | cons super_class supers =>
        simp only [List.head?_cons, Option.map_some] at hw
        split at hw
        · rename_i hwalk
          exact Or.inl ((Option.some.inj hw).symm.trans hwalk)
        · rename_i hnotwalk
          rcases hinv.bitmap super_class rfl with hwalk | henc
          · exact absurd hwalk hnotwalk
          · exact createReferenceOffsets_encodes _ _ _ henc
              (fun p hp => hown p.2 (List.mem_map_of_mem hp)) w hw

/-- Every hierarchy linked in order keeps the invariant. -/
theorem chainInv_linkHierarchy {defs : List ClassDef} {chain : List LinkedClass}
    (h : linkHierarchy defs = some chain) : ChainInv chain := by
  -- induction on the classes in the order they are linked, the root first
  induction defs using List.reverseRecOn generalizing chain with
  | nil =>
      simp only [linkHierarchy, List.foldlM_nil, Option.pure_def, Option.some.injEq] at h
      rw [← h]
      exact chainInv_nil
  | append_singleton defs c ih =>
      obtain ⟨supers, klass, hsupers, hklass, rfl⟩ := linkHierarchy_append_singleton h
      exact chainInv_linkClass (ih hsupers) hklass

/-- The collector visits, in an instance of the first class of a linked
    hierarchy, the recorded reference offsets of the class and its
    superclasses, the class pointer at `0` apart: by walking when the bitmap
    says so, and by the bitmap's set bits otherwise. -/
theorem visitInstanceFieldsReferences_mem {chain : List LinkedClass} (hinv : ChainInv chain)
    (o : Nat) :
    (o ∈ visitInstanceFieldsReferences chain ∧ o ≠ 0) ↔
      (o ∈ chainReferenceOffsets chain ∧ o ≠ 0) := by
  cases chain with
  | nil => simp [visitInstanceFieldsReferences, chainReferenceOffsets]
  | cons klass supers =>
      simp only [visitInstanceFieldsReferences, visitFieldsReferences]
      split
      · -- the bitmap: its set bits below the top one are the offsets but `0`
        rename_i hnotwalk
        have henc : Encodes klass.referenceInstanceOffsets
            (chainReferenceOffsets (klass :: supers)) := by
          rcases hinv.bitmap klass rfl with hwalk | henc
          · exact absurd hwalk hnotwalk
          · exact henc
        rw [mem_visitBitmap 32 _ (Or.inr (log2_toNat_lt _)) o]
        simp only [testBit_and_lowMask, Bool.and_eq_true, decide_eq_true_eq, henc.2]
        constructor
        · rintro ⟨⟨i, ⟨⟨-, hmem⟩, hi⟩, rfl⟩, -⟩
          exact ⟨by rw [Nat.mul_comm]; exact hmem, by omega⟩
        · rintro ⟨hmem, hne⟩
          obtain ⟨h4, h128⟩ := henc.1 o hmem
          refine ⟨⟨31 - o / 4, ⟨⟨by omega, ?_⟩, by omega⟩, by omega⟩, hne⟩
          rw [show 4 * (31 - (31 - o / 4)) = o by omega]
          exact hmem
      · -- the walk visits exactly the recorded offsets
        rfl

/-! ### The hierarchy -/

/-- What the layout of the last class of a hierarchy and the collector's
    scan of its instances must satisfy: `klass` is the class declared as `c`,
    linked below the classes `supers`. -/
structure InstanceLayout (c : ClassDef) (klass : LinkedClass) (supers : List LinkedClass) :
    Prop where
  /-- Every declared field has exactly one slot. -/
  slots_perm : (klass.ifields.map Prod.fst).Perm c.ifields
  /-- Each slot lies between the superclass's object size and the class's. -/
  slots_inside : ∀ p ∈ klass.ifields,
    (supers.head?.map (·.objectSize)).getD 0 ≤ p.2 ∧ p.2 + fieldSize p.1 ≤ klass.objectSize
  /-- Each slot ends before any later one starts. -/
  slots_disjoint : klass.ifields.Pairwise fun p q => p.2 + fieldSize p.1 ≤ q.2
  /-- Every `long` and `double` is 8-aligned. -/
  wide_aligned : ∀ p ∈ klass.ifields, p.1.type.is64bit = true → p.2 % 8 = 0
  /-- The first `NumReferenceInstanceFields` fields sit at consecutive words
      from the superclass's object size. -/
  references_consecutive : (klass.ifields.take klass.numReferenceInstanceFields).map Prod.snd =
    List.range' ((supers.head?.map (·.objectSize)).getD 0) klass.numReferenceInstanceFields 4
  /-- They are the reference fields of the class, but `Reference.referent`. -/
  references_exact : ∃ excluded : List ArtField,
    ((klass.ifields.take klass.numReferenceInstanceFields).map Prod.fst ++ excluded).Perm
        (c.ifields.filter fun f => f.type == .kPrimNot) ∧
      (excluded = [] ∨ c.descriptor = kReferenceDescriptor ∧ excluded.map (·.name) = ["referent"])
  /-- The collector visits the recorded reference offsets of the class and its
      superclasses, the class pointer apart. -/
  visited : ∀ o, (o ∈ visitInstanceFieldsReferences (klass :: supers) ∧ o ≠ 0) ↔
    (o ∈ chainReferenceOffsets (klass :: supers) ∧ o ≠ 0)

/-- Linking a hierarchy in order from its root down to `c`: the layout of `c`
    and the scan of its instances agree. -/
theorem linkHierarchy_instance_fields (defs : List ClassDef) (c : ClassDef)
    (klass : LinkedClass) (supers : List LinkedClass)
    (h : linkHierarchy (defs ++ [c]) = some (klass :: supers)) :
    InstanceLayout c klass supers := by
  have hinv := chainInv_linkHierarchy h
  -- the last class is linked after the hierarchy above it
  obtain ⟨supers', k, hchain, hk, hcons⟩ := linkHierarchy_append_singleton h
  obtain ⟨rfl, rfl⟩ := List.cons.inj hcons
  have hsuper := superObjectSize_aligned (chainInv_linkHierarchy hchain)
  obtain ⟨linked, w, hlink, -, rfl⟩ := linkClass_eq_some hk
  obtain ⟨hperm, hpacked, hwide, -⟩ := linkFields_layout hsuper hlink
  obtain ⟨hoffs, hexact⟩ := linkFields_references hlink
  exact ⟨hperm, fun p hp => hpacked.slot_mem hp, hpacked.pairwise, hwide, hoffs, hexact,
    visitInstanceFieldsReferences_mem hinv⟩

/-- `java.lang.Object` as the runtime declares it: the class pointer and
    the monitor word. -/
def javaLangObjectDef : ClassDef :=
  ⟨"Ljava/lang/Object;", [⟨"shadow$_klass_", .kPrimNot⟩, ⟨"shadow$_monitor_", .kPrimInt⟩]⟩

/-- A subclass with a reference, a `long` and a `boolean`, which fills the
    hole before the `long`. -/
def pointDef : ClassDef :=
  ⟨"LPoint;", [⟨"name", .kPrimNot⟩, ⟨"x", .kPrimLong⟩, ⟨"flag", .kPrimBoolean⟩]⟩

theorem linkHierarchy_instance_fields_point :
    ∃ klass supers, linkHierarchy ([javaLangObjectDef] ++ [pointDef]) = some (klass :: supers) ∧
      InstanceLayout pointDef klass supers := by
  have hobject : sortFields javaLangObjectDef.ifields = javaLangObjectDef.ifields :=
    List.mergeSort_of_pairwise (by decide)
  have hpoint : sortFields pointDef.ifields = pointDef.ifields :=
    List.mergeSort_of_pairwise (by decide)
  have h : linkHierarchy ([javaLangObjectDef] ++ [pointDef]) = some
      [⟨"LPoint;", [(⟨"name", .kPrimNot⟩, 8), (⟨"flag", .kPrimBoolean⟩, 12),
          (⟨"x", .kPrimLong⟩, 16)], 1, 24, 0xA0000000⟩,
        ⟨"Ljava/lang/Object;", [(⟨"shadow$_klass_", .kPrimNot⟩, 0),
          (⟨"shadow$_monitor_", .kPrimInt⟩, 4)], 1, 8, 0x80000000⟩] := by
    simp only [linkHierarchy, List.cons_append, List.nil_append, List.foldlM_cons,
      List.foldlM_nil, linkClass, linkFields, hobject, hpoint]
    rfl
  exact ⟨_, _, h, linkHierarchy_instance_fields [javaLangObjectDef] pointDef _ _ h⟩

end Gc

end ArtRuntime
