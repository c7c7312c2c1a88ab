import ArtRuntime.Core.BinarySearch
import ArtRuntime.Utf.ModifiedUtf8

/-!
# Looking Up Ids in a Dex File

`DexFile::FindStringId`, `FindTypeId`, `FindFieldId`, `FindMethodId` and
`FindProtoId` (dex_file.cc) look a key up in an id section by binary search:
the same loop each time, with a comparison of its own. The search is right
only if the section is sorted in the order its comparison uses, and nothing
at lookup time checks that: `DexFileVerifier::CheckInterSectionIterate`
checks each item against the one before it when the file is opened
(`CheckInterStringIdItem` and the others).

The model keeps the id sections as the accessors return them, and the string
data of each string id as the memory from `GetStringData`'s pointer on. The
lookups take the indices the source computes with `GetIndexForTypeId` and the
like. Only the ordering part of each inter-item check is kept: the checks
that descriptors and names are valid reject more files, which only narrows
what the theorems are about.

For strings, types, fields and methods the verifier's check between
neighbours is exactly strict increase in the order the search compares by,
so every lookup finds the one entry with its key. For protos it is not: the
verifier's loop over two parameter lists stops at the shorter one and
accepts what it has not compared, so it accepts a proto followed by one whose
parameters are a prefix of its own, or by an equal one. `FindProtoId` orders
a prefix first, and misses an entry that is there.

The overload of `FindStringId` for a UTF-16 string compares with
`CompareModifiedUtf8ToUtf16AsCodePointValues`, which never advances its
UTF-16 pointer and so never answers equal to a non-empty string: the lookup
finds nothing, in any file.

## Main definitions

* `DexTables`: The id sections.
* `findStringId`, `findStringIdUtf16`, `findTypeId`, `findFieldId`,
  `findMethodId`, `findProtoId`: The lookups.
* `DexFileVerifier.checkInterIdSections`: The verifier's pass over the five
  id sections.

## Theorems

* `find_agrees_with_verifier_order`: In every file that passes the
  verifier's checks, each of the four lookups returns the entry with its key,
  and none when there is none.
* `findProtoId_locates_of_increasing`: `FindProtoId` is right on a proto
  section sorted in its own order.
* `findProtoId_misses_prefix`: A proto section the verifier accepts in which
  `FindProtoId` misses an entry.
* `findStringIdUtf16_eq_none`, `findStringId_utf16_misses_present`: The
  UTF-16 lookup finds no non-empty string, not even one in the file.
-/

namespace ArtRuntime

namespace DexFile

open BinarySearch Utf

/-- A type_id_item. -/
structure TypeId where
  descriptor_idx_ : UInt32
  deriving Inhabited, DecidableEq

/-- A proto_id_item, with the type list at parameters_off_ as
    DexFileParameterIterator walks it (empty when parameters_off_ is 0). -/
structure ProtoId where
  shorty_idx_ : UInt32
  return_type_idx_ : UInt16
  parameters : List UInt16
  deriving Inhabited, DecidableEq

/-- A field_id_item. -/
structure FieldId where
  class_idx_ : UInt16
  type_idx_ : UInt16
  name_idx_ : UInt32
  deriving Inhabited, DecidableEq

/-- A method_id_item. -/
structure MethodId where
  class_idx_ : UInt16
  proto_idx_ : UInt16
  name_idx_ : UInt32
  deriving Inhabited, DecidableEq

/-- The id sections of a dex file. -/
structure DexTables where
  /-- `GetStringData` of each string_id_item: the memory from its pointer on. -/
  string_data : List (List UInt8)
  type_ids_ : List TypeId
  proto_ids_ : List ProtoId
  field_ids_ : List FieldId
  method_ids_ : List MethodId

namespace DexTables

def getStringData (d : DexTables) (i : Nat) : List UInt8 := d.string_data.getD i default

def getTypeId (d : DexTables) (i : Nat) : TypeId := d.type_ids_.getD i default

def getProtoId (d : DexTables) (i : Nat) : ProtoId := d.proto_ids_.getD i default

def getFieldId (d : DexTables) (i : Nat) : FieldId := d.field_ids_.getD i default

def getMethodId (d : DexTables) (i : Nat) : MethodId := d.method_ids_.getD i default

end DexTables

/-- The branches on an int comparison: `if (compare > 0) ... else if
    (compare < 0) ... else`. -/
def compareOfInt (compare : Int) : Ordering :=
  if compare > 0 then .gt else if compare < 0 then .lt else .eq

/-- One level of the nested comparisons of two indices: `if (x > y) ... else
    if (x < y) ... else`, then the next level. -/
def compareIdx (x y : Nat) (next : Ordering) : Ordering :=
  if x > y then .gt else if x < y then .lt else next

/-- DexFile::FindStringId(const char*). -/
def findStringId (d : DexTables) (string : List UInt8) : Option Nat :=
  binarySearch d.getStringData
    (fun str => compareOfInt (compareModifiedUtf8ToModifiedUtf8AsUtf16CodePointValues string 0 str 0))
    d.string_data.length

/-- DexFile::FindStringId(const uint16_t*): the same loop, with the table's
    string passed first to the comparison. `string` is the memory from the
    pointer it is given. -/
def findStringIdUtf16 (d : DexTables) (string : List UInt16) : Option Nat :=
  binarySearch d.getStringData
    (fun str => compareOfInt (compareModifiedUtf8ToUtf16AsCodePointValues str 0 string))
    d.string_data.length

/-- DexFile::FindTypeId. -/
def findTypeId (d : DexTables) (string_idx : UInt32) : Option Nat :=
  binarySearch d.getTypeId
    (fun type_id => compareIdx string_idx.toNat type_id.descriptor_idx_.toNat .eq)
    d.type_ids_.length

/-- DexFile::FindFieldId, from the indices of its class, name and type. -/
def findFieldId (d : DexTables) (class_idx : UInt16) (name_idx : UInt32) (type_idx : UInt16) :
    Option Nat :=
  binarySearch d.getFieldId
    (fun field => compareIdx class_idx.toNat field.class_idx_.toNat
      (compareIdx name_idx.toNat field.name_idx_.toNat
        (compareIdx type_idx.toNat field.type_idx_.toNat .eq)))
    d.field_ids_.length

/-- DexFile::FindMethodId, from the indices of its class, name and proto. -/
def findMethodId (d : DexTables) (class_idx : UInt16) (name_idx : UInt32) (proto_idx : UInt16) :
    Option Nat :=
  binarySearch d.getMethodId
    (fun method => compareIdx class_idx.toNat method.class_idx_.toNat
      (compareIdx name_idx.toNat method.name_idx_.toNat
        (compareIdx proto_idx.toNat method.proto_idx_.toNat .eq)))
    d.method_ids_.length

/-- FindProtoId's loop over the parameters, entered with `compare == 0`: the
    first difference `signature_type_idxs[i] - it.GetTypeIdx()` that is not
    0, or -1 when the proto has more parameters and 1 when the signature has. -/
def compareParameters : List UInt16 → List UInt16 → Int
  | sig :: sigs, param :: params =>
    if (sig.toNat : Int) - param.toNat = 0 then compareParameters sigs params
    else (sig.toNat : Int) - param.toNat
  | [], _ :: _ => -1
  | _ :: _, [] => 1
  | [], [] => 0

/-- FindProtoId's comparison at `mid`. -/
def protoIdCompare (return_type_idx : UInt16) (signature_type_idxs : List UInt16)
    (proto : ProtoId) : Ordering :=
  let compare : Int := (return_type_idx.toNat : Int) - proto.return_type_idx_.toNat
  compareOfInt (if compare = 0 then compareParameters signature_type_idxs proto.parameters
    else compare)

/-- DexFile::FindProtoId. -/
def findProtoId (d : DexTables) (return_type_idx : UInt16) (signature_type_idxs : List UInt16) :
    Option Nat :=
  binarySearch d.getProtoId (protoIdCompare return_type_idx signature_type_idxs)
    d.proto_ids_.length

end DexFile

namespace DexFileVerifier

open DexFile Utf

/-- The ordering part of CheckInterStringIdItem: the string is above the one
    before it. -/
def checkInterStringIdItem (previous_item_ : Option (List UInt8)) (item : List UInt8) : Bool :=
  match previous_item_ with
  | none => true
  | some prev_str => !(compareModifiedUtf8ToModifiedUtf8AsUtf16CodePointValues prev_str 0 item 0 ≥ 0)

/-- The ordering part of CheckInterTypeIdItem. -/
def checkInterTypeIdItem (previous_item_ : Option TypeId) (item : TypeId) : Bool :=
  match previous_item_ with
  | none => true
  | some prev_item => !(prev_item.descriptor_idx_ ≥ item.descriptor_idx_)

/-- The nested checks of CheckInterFieldIdItem and CheckInterMethodIdItem on
    the class, name and third index of two neighbours; false where the source
    logs "Out-of-order". -/
def checkInOrder (prev_class prev_name prev_third item_class item_name item_third : Nat) : Bool :=
  if prev_class > item_class then false
  else if prev_class = item_class then
    if prev_name > item_name then false
    else if prev_name = item_name then !(prev_third ≥ item_third)
    else true
  else true

/-- The ordering part of CheckInterFieldIdItem. -/
def checkInterFieldIdItem (previous_item_ : Option FieldId) (item : FieldId) : Bool :=
  match previous_item_ with
  | none => true
  | some prev_item =>
    checkInOrder prev_item.class_idx_.toNat prev_item.name_idx_.toNat prev_item.type_idx_.toNat
      item.class_idx_.toNat item.name_idx_.toNat item.type_idx_.toNat

/-- The ordering part of CheckInterMethodIdItem. -/
def checkInterMethodIdItem (previous_item_ : Option MethodId) (item : MethodId) : Bool :=
  match previous_item_ with
  | none => true
  | some prev_item =>
    checkInOrder prev_item.class_idx_.toNat prev_item.name_idx_.toNat prev_item.proto_idx_.toNat
      item.class_idx_.toNat item.name_idx_.toNat item.proto_idx_.toNat

/-- DexFile::kDexNoIndex16. -/
def kDexNoIndex16 : UInt16 := 0xFFFF

/-- The loop of CheckInterProtoIdItem over the parameters of two protos with
    the same return type; false where the source logs "Out-of-order proto_id
    arguments". It stops when either list ends. -/
def checkProtoParameters : List UInt16 → List UInt16 → Bool
  | prev_idx :: prev, curr_idx :: curr =>
    if prev_idx = kDexNoIndex16 then true
    else if curr_idx = kDexNoIndex16 then false
    else if prev_idx < curr_idx then true
    else if prev_idx > curr_idx then false
    else checkProtoParameters prev curr
  | _, _ => true

/-- The ordering part of CheckInterProtoIdItem. -/
def checkInterProtoIdItem (previous_item_ : Option ProtoId) (item : ProtoId) : Bool :=
  match previous_item_ with
  | none => true
  | some prev =>
    if prev.return_type_idx_ > item.return_type_idx_ then false
    else if prev.return_type_idx_ = item.return_type_idx_ then
      checkProtoParameters prev.parameters item.parameters
    else true

/-- CheckInterSectionIterate: each item checked against the one before it. -/
def checkInterSectionIterate {α : Type} (check : Option α → α → Bool) (previous_item_ : Option α) :
    List α → Bool
  | [] => true
  | item :: items => check previous_item_ item && checkInterSectionIterate check (some item) items

/-- CheckInterSection over the five id sections. -/
def checkInterIdSections (d : DexTables) : Bool :=
  checkInterSectionIterate checkInterStringIdItem none d.string_data &&
    checkInterSectionIterate checkInterTypeIdItem none d.type_ids_ &&
    checkInterSectionIterate checkInterProtoIdItem none d.proto_ids_ &&
    checkInterSectionIterate checkInterFieldIdItem none d.field_ids_ &&
    checkInterSectionIterate checkInterMethodIdItem none d.method_ids_

end DexFileVerifier

namespace DexFile

open BinarySearch Utf DexFileVerifier

section Order

variable {α : Type}

/-- The verifier's iteration checks every item against the one before it. -/
theorem checkInterSectionIterate_chain [Inhabited α] {check : Option α → α → Bool}
    {prev : Option α} {items : List α} (h : checkInterSectionIterate check prev items = true)
    (i : Nat) (hi : i + 1 < items.length) :
    check (some (items.getD i default)) (items.getD (i + 1) default) = true := by
  induction items generalizing prev i with
  | nil => exact absurd hi (Nat.not_lt_zero _)
  | cons item items ih =>
    rw [checkInterSectionIterate, Bool.and_eq_true] at h
    cases i with
    | zero =>
      -- the second item is checked against the head
      cases items with
      | nil => exact absurd hi (by simp)
      | cons next rest =>
        rw [checkInterSectionIterate, Bool.and_eq_true] at h
        exact h.2.1
    | succ i =>
      rw [List.getD_cons_succ, List.getD_cons_succ]
      exact ih h.2 i (by simp only [List.length_cons] at hi; omega)

/-- A check between neighbours that means "below" makes the section strictly
    increasing. -/
theorem strictlyIncreasing_of_check {β : Type} [LT β] [Inhabited α] {check : Option α → α → Bool}
    {val : α → β} {items : List α} (horder : ∀ p q, check (some p) q = true → val p < val q)
    (h : checkInterSectionIterate check none items = true) :
    StrictlyIncreasing (fun i => items.getD i default) val items.length :=
  fun i hi => horder _ _ (checkInterSectionIterate_chain h i hi)

end Order

/-- The key of a type_id_item in the order FindTypeId compares by. -/
def typeKey (type_id : TypeId) : List Nat := [type_id.descriptor_idx_.toNat]

/-- The key of a field_id_item: class, name, type. -/
def fieldKey (field : FieldId) : List Nat :=
  [field.class_idx_.toNat, field.name_idx_.toNat, field.type_idx_.toNat]

/-- The key of a method_id_item: class, name, proto. -/
def methodKey (method : MethodId) : List Nat :=
  [method.class_idx_.toNat, method.name_idx_.toNat, method.proto_idx_.toNat]

/-- The key of a proto_id_item: the return type, then the parameters. -/
def protoKey (proto : ProtoId) : List Nat :=
  proto.return_type_idx_.toNat :: proto.parameters.map UInt16.toNat

section Verifier

theorem checkInterStringIdItem_some_iff (p q : List UInt8) :
    checkInterStringIdItem (some p) q = true ↔ codeUnits p 0 < codeUnits q 0 := by
  rw [checkInterStringIdItem, Bool.not_eq_true', decide_eq_false_iff_not, Int.not_le]
  exact compare_neg_iff p 0 q 0

/-- Two encoded strings pass the check when their code units are in order. -/
theorem checkInterStringIdItem_encoded {s t : List UInt16}
    (h : s.map UInt16.toNat < t.map UInt16.toNat) :
    checkInterStringIdItem (some (convertUtf16ToModifiedUtf8 s ++ [0]))
      (convertUtf16ToModifiedUtf8 t ++ [0]) = true := by
  rw [checkInterStringIdItem_some_iff, codeUnits_encoded, codeUnits_encoded]
  exact h

theorem typeKey_lt_of_checkInterTypeIdItem {p q : TypeId}
    (h : checkInterTypeIdItem (some p) q = true) : typeKey p < typeKey q := by
  rw [checkInterTypeIdItem, Bool.not_eq_true', decide_eq_false_iff_not, UInt32.not_le] at h
  rw [typeKey, typeKey, List.cons_lt_cons_iff]
  exact .inl (UInt32.lt_iff_toNat_lt.mp h)

/-- The nested checks accept exactly the pairs in increasing lexicographic
    order. -/
theorem checkInOrder_iff (a b c a' b' c' : Nat) :
    checkInOrder a b c a' b' c' = true ↔ [a, b, c] < [a', b', c'] := by
  simp only [checkInOrder, List.cons_lt_cons_iff, List.not_lt_nil, and_false, or_false]
  split_ifs <;> simp <;> omega

theorem fieldKey_lt_of_checkInterFieldIdItem {p q : FieldId}
    (h : checkInterFieldIdItem (some p) q = true) : fieldKey p < fieldKey q :=
  (checkInOrder_iff _ _ _ _ _ _).mp h

theorem methodKey_lt_of_checkInterMethodIdItem {p q : MethodId}
    (h : checkInterMethodIdItem (some p) q = true) : methodKey p < methodKey q :=
  (checkInOrder_iff _ _ _ _ _ _).mp h

end Verifier

section Compare

theorem compareOfInt_eq_gt_iff (c : Int) : compareOfInt c = .gt ↔ 0 < c := by
  unfold compareOfInt
  by_cases hc : c > 0
  · rw [if_pos hc]
    exact ⟨fun _ => hc, fun _ => rfl⟩
  · rw [if_neg hc]
    by_cases hn : c < 0
    · rw [if_pos hn]
      exact ⟨nofun, fun h => absurd h hc⟩
    · rw [if_neg hn]
      exact ⟨nofun, fun h => absurd h hc⟩

theorem compareOfInt_eq_lt_iff (c : Int) : compareOfInt c = .lt ↔ c < 0 := by
  unfold compareOfInt
  by_cases hc : c > 0
  · rw [if_pos hc]
    exact ⟨nofun, fun h => absurd h (by omega)⟩
  · rw [if_neg hc]
    by_cases hn : c < 0
    · rw [if_pos hn]
      exact ⟨fun _ => hn, fun _ => rfl⟩
    · rw [if_neg hn]
      exact ⟨nofun, fun h => absurd h hn⟩

/-- A level of the nested comparisons is one more element of the
    lexicographic order. -/
theorem compareIdx_gt_iff {x y : Nat} {next : Ordering} {ks vs : List Nat}
    (hn : next = .gt ↔ vs < ks) : compareIdx x y next = .gt ↔ y :: vs < x :: ks := by
  rw [compareIdx, List.cons_lt_cons_iff]
  by_cases hxy : x > y
  · rw [if_pos hxy]
    exact ⟨fun _ => .inl hxy, fun _ => rfl⟩
  · rw [if_neg hxy]
    by_cases hlt : x < y
    · rw [if_pos hlt]
      exact ⟨nofun, fun h => by omega⟩
    · rw [if_neg hlt, hn]
      have hxy' : y = x := by omega
      exact ⟨fun h => .inr ⟨hxy', h⟩, fun h => h.elim (fun h => absurd h (by omega)) And.right⟩

theorem compareIdx_lt_iff {x y : Nat} {next : Ordering} {ks vs : List Nat}
    (hn : next = .lt ↔ ks < vs) : compareIdx x y next = .lt ↔ x :: ks < y :: vs := by
  rw [compareIdx, List.cons_lt_cons_iff]
  by_cases hxy : x > y
  · rw [if_pos hxy]
    exact ⟨nofun, fun h => by omega⟩
  · rw [if_neg hxy]
    by_cases hlt : x < y
    · rw [if_pos hlt]
      exact ⟨fun _ => .inl hlt, fun _ => rfl⟩
    · rw [if_neg hlt, hn]
      have hxy' : x = y := by omega
      exact ⟨fun h => .inr ⟨hxy', h⟩, fun h => h.elim (fun h => absurd h hlt) And.right⟩

/-- The innermost level: the keys are used up. -/
theorem eq_gt_iff_nil : Ordering.eq = .gt ↔ ([] : List Nat) < [] :=
  ⟨nofun, fun h => absurd h (List.not_lt_nil _)⟩

theorem eq_lt_iff_nil : Ordering.eq = .lt ↔ ([] : List Nat) < [] :=
  ⟨nofun, fun h => absurd h (List.not_lt_nil _)⟩

theorem comparesTo_string (string : List UInt8) :
    ComparesTo (fun str => compareOfInt
        (compareModifiedUtf8ToModifiedUtf8AsUtf16CodePointValues string 0 str 0))
      (fun str => codeUnits str 0) (codeUnits string 0) where
  gt_iff str := by rw [compareOfInt_eq_gt_iff, compare_pos_iff]
  lt_iff str := by rw [compareOfInt_eq_lt_iff, compare_neg_iff]

theorem comparesTo_typeId (string_idx : UInt32) :
    ComparesTo (fun type_id : TypeId => compareIdx string_idx.toNat type_id.descriptor_idx_.toNat .eq)
      typeKey [string_idx.toNat] where
  gt_iff _ := compareIdx_gt_iff eq_gt_iff_nil
  lt_iff _ := compareIdx_lt_iff eq_lt_iff_nil

theorem comparesTo_fieldId (class_idx : UInt16) (name_idx : UInt32) (type_idx : UInt16) :
    ComparesTo (fun field : FieldId => compareIdx class_idx.toNat field.class_idx_.toNat
        (compareIdx name_idx.toNat field.name_idx_.toNat
          (compareIdx type_idx.toNat field.type_idx_.toNat .eq)))
      fieldKey [class_idx.toNat, name_idx.toNat, type_idx.toNat] where
  gt_iff _ := compareIdx_gt_iff (compareIdx_gt_iff (compareIdx_gt_iff eq_gt_iff_nil))
  lt_iff _ := compareIdx_lt_iff (compareIdx_lt_iff (compareIdx_lt_iff eq_lt_iff_nil))

theorem comparesTo_methodId (class_idx : UInt16) (name_idx : UInt32) (proto_idx : UInt16) :
    ComparesTo (fun method : MethodId => compareIdx class_idx.toNat method.class_idx_.toNat
        (compareIdx name_idx.toNat method.name_idx_.toNat
          (compareIdx proto_idx.toNat method.proto_idx_.toNat .eq)))
      methodKey [class_idx.toNat, name_idx.toNat, proto_idx.toNat] where
  gt_iff _ := compareIdx_gt_iff (compareIdx_gt_iff (compareIdx_gt_iff eq_gt_iff_nil))
  lt_iff _ := compareIdx_lt_iff (compareIdx_lt_iff (compareIdx_lt_iff eq_lt_iff_nil))

end Compare

section Lookups

theorem codeUnits_eq_iff (a b : List UInt8) :
    codeUnits a 0 = codeUnits b 0 ↔ convertModifiedUtf8ToUtf16 a 0 = convertModifiedUtf8ToUtf16 b 0 :=
  (List.map_injective_iff.mpr fun _ _ h => UInt16.toNat_inj.mp h).eq_iff

theorem typeKey_eq_iff (type_id : TypeId) (string_idx : UInt32) :
    typeKey type_id = [string_idx.toNat] ↔ type_id.descriptor_idx_ = string_idx := by
  simp only [typeKey, List.cons.injEq, and_true, UInt32.toNat_inj]

theorem fieldKey_eq_iff (field : FieldId) (class_idx : UInt16) (name_idx : UInt32)
    (type_idx : UInt16) :
    fieldKey field = [class_idx.toNat, name_idx.toNat, type_idx.toNat] ↔
      field.class_idx_ = class_idx ∧ field.name_idx_ = name_idx ∧ field.type_idx_ = type_idx := by
  simp only [fieldKey, List.cons.injEq, and_true, UInt16.toNat_inj, UInt32.toNat_inj]

theorem methodKey_eq_iff (method : MethodId) (class_idx : UInt16) (name_idx : UInt32)
    (proto_idx : UInt16) :
    methodKey method = [class_idx.toNat, name_idx.toNat, proto_idx.toNat] ↔
      method.class_idx_ = class_idx ∧ method.name_idx_ = name_idx ∧
        method.proto_idx_ = proto_idx := by
  simp only [methodKey, List.cons.injEq, and_true, UInt16.toNat_inj, UInt32.toNat_inj]

theorem find_agrees_with_verifier_order (d : DexTables) (hv : checkInterIdSections d = true) :
    (∀ string : List UInt8, Locates (findStringId d string) d.string_data.length fun i =>
        convertModifiedUtf8ToUtf16 (d.getStringData i) 0 = convertModifiedUtf8ToUtf16 string 0) ∧
    (∀ string_idx : UInt32, Locates (findTypeId d string_idx) d.type_ids_.length fun i =>
        (d.getTypeId i).descriptor_idx_ = string_idx) ∧
    (∀ (class_idx : UInt16) (name_idx : UInt32) (type_idx : UInt16),
      Locates (findFieldId d class_idx name_idx type_idx) d.field_ids_.length fun i =>
        (d.getFieldId i).class_idx_ = class_idx ∧ (d.getFieldId i).name_idx_ = name_idx ∧
          (d.getFieldId i).type_idx_ = type_idx) ∧
    (∀ (class_idx : UInt16) (name_idx : UInt32) (proto_idx : UInt16),
      Locates (findMethodId d class_idx name_idx proto_idx) d.method_ids_.length fun i =>
        (d.getMethodId i).class_idx_ = class_idx ∧ (d.getMethodId i).name_idx_ = name_idx ∧
          (d.getMethodId i).proto_idx_ = proto_idx) := by
  simp only [checkInterIdSections, Bool.and_eq_true] at hv
  rcases hv with ⟨⟨⟨⟨hstr, htype⟩, -⟩, hfield⟩, hmethod⟩
  refine ⟨fun string => ?_, fun string_idx => ?_, fun class_idx name_idx type_idx => ?_,
    fun class_idx name_idx proto_idx => ?_⟩
  · -- strings, in the order of their decoded code units
    have hs := strictlyIncreasing_of_check (fun p q => (checkInterStringIdItem_some_iff p q).mp) hstr
    exact (binarySearch_locates (comparesTo_string string) hs).of_iff
      fun _ _ => codeUnits_eq_iff _ _
  · have hs := strictlyIncreasing_of_check (fun _ _ => typeKey_lt_of_checkInterTypeIdItem) htype
    exact (binarySearch_locates (comparesTo_typeId string_idx) hs).of_iff
      fun _ _ => typeKey_eq_iff _ _
  · have hs := strictlyIncreasing_of_check (fun _ _ => fieldKey_lt_of_checkInterFieldIdItem) hfield
    exact (binarySearch_locates (comparesTo_fieldId class_idx name_idx type_idx) hs).of_iff
      fun _ _ => fieldKey_eq_iff _ _ _ _
  · have hs := strictlyIncreasing_of_check
      (fun _ _ => methodKey_lt_of_checkInterMethodIdItem) hmethod
    exact (binarySearch_locates (comparesTo_methodId class_idx name_idx proto_idx) hs).of_iff
      fun _ _ => methodKey_eq_iff _ _ _ _

/-- The strings "I" and "V", their two types, and one field. -/
def sampleTables : DexTables where
  string_data := [[0x49, 0], [0x56, 0]]
  type_ids_ := [⟨0⟩, ⟨1⟩]
  proto_ids_ := []
  field_ids_ := [⟨1, 0, 0⟩]
  method_ids_ := []

theorem find_agrees_with_verifier_order_sample :
    checkInterIdSections sampleTables = true ∧ findTypeId sampleTables 1 = some 1 := by
  -- "I" is below "V"
  have hstr : checkInterStringIdItem (some [0x49, 0]) [0x56, 0] = true :=
    checkInterStringIdItem_encoded (s := [0x49]) (t := [0x56]) (by decide)
  have hv : checkInterIdSections sampleTables = true := by
    simp only [checkInterIdSections, checkInterSectionIterate, sampleTables, hstr]
    decide
  exact ⟨hv, (((find_agrees_with_verifier_order sampleTables hv).2.1 1).1 1).mpr ⟨by decide, rfl⟩⟩

/-- FindStringId(const uint16_t*) finds no string that does not start with
    its terminator, in any file: its comparison never answers equal. -/
theorem findStringIdUtf16_eq_none (d : DexTables) {string : List UInt16}
    (h : string.getD 0 0 ≠ 0) : findStringIdUtf16 d string = none := by
  refine search_eq_none_of_ne_eq (fun str heq => ?_) _ _
  -- compareOfInt answers eq only on 0
  have h0 : compareModifiedUtf8ToUtf16AsCodePointValues str 0 string = 0 := by
    by_contra hne
    rcases lt_or_gt_of_ne hne with hlt | hgt
    · exact absurd heq (by rw [compareOfInt, if_neg (by omega), if_pos hlt]; decide)
    · exact absurd heq (by rw [compareOfInt, if_pos hgt]; decide)
  exact compareModifiedUtf8ToUtf16_ne_zero str 0 h h0

/-- The string "a" alone. -/
def oneStringTables : DexTables where
  string_data := [[0x61, 0]]
  type_ids_ := []
  proto_ids_ := []
  field_ids_ := []
  method_ids_ := []

/-- In a file whose one string is "a", the char* lookup finds "a" and the
    UTF-16 lookup of the same string does not. -/
theorem findStringId_utf16_misses_present :
    checkInterIdSections oneStringTables = true ∧
      convertModifiedUtf8ToUtf16 (oneStringTables.getStringData 0) 0 = [0x61] ∧
      findStringId oneStringTables [0x61, 0] = some 0 ∧
      findStringIdUtf16 oneStringTables [0x61, 0] = none := by
  have hv : checkInterIdSections oneStringTables = true := by decide
  have hdec : convertModifiedUtf8ToUtf16 [0x61, 0] 0 = [0x61] :=
    convertModifiedUtf8ToUtf16_encoded [] [] [0x61]
  -- one string is sorted, so the char* search finds whatever equals it
  have hs : StrictlyIncreasing oneStringTables.getStringData (fun str => codeUnits str 0) 1 :=
    fun i hi => absurd hi (by omega)
  refine ⟨hv, hdec, ?_, findStringIdUtf16_eq_none _ (by decide)⟩
  exact ((binarySearch_locates (comparesTo_string [0x61, 0]) hs).1 0).mpr ⟨by decide, rfl⟩

end Lookups

section Proto

/-- FindProtoId's parameter loop compares the two lists lexicographically,
    a prefix first. -/
theorem compareParameters_sign (sigs params : List UInt16) :
    (0 < compareParameters sigs params ↔ params.map UInt16.toNat < sigs.map UInt16.toNat) ∧
      (compareParameters sigs params < 0 ↔ sigs.map UInt16.toNat < params.map UInt16.toNat) := by
  induction sigs generalizing params with
  | nil =>
    cases params with
    | nil => exact ⟨⟨nofun, fun h => absurd h (List.not_lt_nil _)⟩,
        ⟨nofun, fun h => absurd h (List.not_lt_nil _)⟩⟩
    | cons param params =>
      exact ⟨⟨nofun, fun h => absurd h (List.not_lt_nil _)⟩,
        ⟨fun _ => List.nil_lt_cons _ _, fun _ => by rw [compareParameters]; decide⟩⟩
  | cons sig sigs ih =>
    cases params with
    | nil =>
      exact ⟨⟨fun _ => List.nil_lt_cons _ _, fun _ => by rw [compareParameters]; decide⟩,
        ⟨nofun, fun h => absurd h (List.not_lt_nil _)⟩⟩
    | cons param params =>
      simp only [compareParameters, List.map_cons, List.cons_lt_cons_iff]
      by_cases hd : (sig.toNat : Int) - param.toNat = 0
      · -- equal heads: the rest decides
        have he : param.toNat = sig.toNat := by omega
        rw [if_pos hd, he]
        simp only [lt_irrefl, true_and, false_or]
        exact ih params
      · rw [if_neg hd]
        constructor
        · constructor
          · intro h
            exact .inl (by omega)
          · intro h
            rcases h with h | ⟨h, -⟩ <;> omega
        · constructor
          · intro h
            exact .inl (by omega)
          · intro h
            rcases h with h | ⟨h, -⟩ <;> omega

theorem comparesTo_protoId (return_type_idx : UInt16) (signature_type_idxs : List UInt16) :
    ComparesTo (protoIdCompare return_type_idx signature_type_idxs) protoKey
      (return_type_idx.toNat :: signature_type_idxs.map UInt16.toNat) where
  gt_iff proto := by
    rw [protoIdCompare, compareOfInt_eq_gt_iff, protoKey, List.cons_lt_cons_iff]
    by_cases hr : (return_type_idx.toNat : Int) - proto.return_type_idx_.toNat = 0
    · have he : proto.return_type_idx_.toNat = return_type_idx.toNat := by omega
      rw [if_pos hr, he, (compareParameters_sign _ _).1]
      simp only [lt_irrefl, true_and, false_or]
    · rw [if_neg hr]
      constructor
      · intro h
        exact .inl (by omega)
      · intro h
        rcases h with h | ⟨h, -⟩ <;> omega
  lt_iff proto := by
    rw [protoIdCompare, compareOfInt_eq_lt_iff, protoKey, List.cons_lt_cons_iff]
    by_cases hr : (return_type_idx.toNat : Int) - proto.return_type_idx_.toNat = 0
    · have he : proto.return_type_idx_.toNat = return_type_idx.toNat := by omega
      rw [if_pos hr, he, (compareParameters_sign _ _).2]
      simp only [lt_irrefl, true_and, false_or]
    · rw [if_neg hr]
      constructor
      · intro h
        exact .inl (by omega)
      · intro h
        rcases h with h | ⟨h, -⟩ <;> omega

theorem protoKey_eq_iff (proto : ProtoId) (return_type_idx : UInt16)
    (signature_type_idxs : List UInt16) :
    protoKey proto = return_type_idx.toNat :: signature_type_idxs.map UInt16.toNat ↔
      proto.return_type_idx_ = return_type_idx ∧ proto.parameters = signature_type_idxs := by
  rw [protoKey, List.cons.injEq, UInt16.toNat_inj,
    (List.map_injective_iff.mpr fun _ _ h => UInt16.toNat_inj.mp h).eq_iff]

/-- On a proto section sorted in its own order, FindProtoId finds the proto
    with the return type and parameters it is given. -/
theorem findProtoId_locates_of_increasing (d : DexTables)
    (hs : StrictlyIncreasing d.getProtoId protoKey d.proto_ids_.length)
    (return_type_idx : UInt16) (signature_type_idxs : List UInt16) :
    Locates (findProtoId d return_type_idx signature_type_idxs) d.proto_ids_.length fun i =>
      (d.getProtoId i).return_type_idx_ = return_type_idx ∧
        (d.getProtoId i).parameters = signature_type_idxs :=
  (binarySearch_locates (comparesTo_protoId return_type_idx signature_type_idxs) hs).of_iff
    fun _ _ => protoKey_eq_iff _ _ _

/-- The strings "I", "J", "V", "VI" and "VIJ", the types I, J and V, and the
    protos void(int, long) and then void(int). -/
def protoPrefixTables : DexTables where
  string_data := [[0x49, 0], [0x4A, 0], [0x56, 0], [0x56, 0x49, 0], [0x56, 0x49, 0x4A, 0]]
  type_ids_ := [⟨0⟩, ⟨1⟩, ⟨2⟩]
  proto_ids_ := [⟨4, 2, [0, 1]⟩, ⟨3, 2, [0]⟩]
  field_ids_ := []
  method_ids_ := []

theorem findProtoId_misses_prefix :
    checkInterIdSections protoPrefixTables = true ∧
      (protoPrefixTables.getProtoId 1).return_type_idx_ = 2 ∧
      (protoPrefixTables.getProtoId 1).parameters = [0] ∧
      findProtoId protoPrefixTables 2 [0] = none := by
  -- the five strings are in order
  have h1 : checkInterStringIdItem (some [0x49, 0]) [0x4A, 0] = true :=
    checkInterStringIdItem_encoded (s := [0x49]) (t := [0x4A]) (by decide)
  have h2 : checkInterStringIdItem (some [0x4A, 0]) [0x56, 0] = true :=
    checkInterStringIdItem_encoded (s := [0x4A]) (t := [0x56]) (by decide)
  have h3 : checkInterStringIdItem (some [0x56, 0]) [0x56, 0x49, 0] = true :=
    checkInterStringIdItem_encoded (s := [0x56]) (t := [0x56, 0x49]) (by decide)
  have h4 : checkInterStringIdItem (some [0x56, 0x49, 0]) [0x56, 0x49, 0x4A, 0] = true :=
    checkInterStringIdItem_encoded (s := [0x56, 0x49]) (t := [0x56, 0x49, 0x4A]) (by decide)
  refine ⟨?_, rfl, rfl, ?_⟩
  · simp only [checkInterIdSections, checkInterSectionIterate, protoPrefixTables, h1, h2, h3, h4]
    decide
  · -- the search compares void(int) with void(int, long) first, goes below it, and stops
    simp [findProtoId, binarySearch, search, protoPrefixTables, DexTables.getProtoId,
      protoIdCompare, compareParameters, compareOfInt]

end Proto

end DexFile

end ArtRuntime
