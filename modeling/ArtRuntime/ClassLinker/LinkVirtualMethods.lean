import Mathlib

/-!
# Virtual Method Tables

`ClassLinker::LinkVirtualMethods` gives a class its vtable, the table
`invoke-virtual` dispatches through, and each of its virtual methods the
index of its slot there (`SetMethodIndex`). The vtable of
`java.lang.Object` is its virtual methods in order. Any other class starts
from a copy of its superclass's vtable and links its virtual methods one
after another: a method overrides the first entry with its name and
signature that the class can access, unless that entry is final, and
otherwise takes a new slot at the end. An entry the class cannot access, a
package-private method of another package, is passed over with a warning.
The search runs over the whole table built so far, the class's own appended
methods included. A table of `2^16` entries or more is refused.

What `LinkVirtualMethods` asks of a method (its name and signature, whether
the class may access it, whether it is final) is given by `MethodAccess`.
The vtable is modelled by its filled prefix: `CopyOf(max_count)` leaves the
slots from `actual_count` on null, the loop reads and writes only below
`actual_count` and appends at it, and the final `CopyOf(actual_count)` keeps
exactly that prefix.

When two of the class's own virtual methods share a name and signature, the
second overrides the first, whose method index then names the slot of the
other (`duplicate_signature_loses_method`); the `class_data_item` checks of
the file verifier do not rule out a method listed twice. For methods of
distinct names and signatures the loop keeps `VtableInv`, and the linked
table is what dispatch needs.

## Main definitions

* `MethodAccess`: What the linker reads of a method.
* `LinkedVtable`: A vtable and the method indices of the class's virtual
  methods.
* `findSuperMethod`: The search for the entry a method overrides.
* `linkLocalMethod`: One turn of the loop over the class's virtual methods.
* `linkVirtualMethods`: `LinkVirtualMethods`.
* `VtableInv`: What the loop keeps.

## Theorems

* `vtable_length_le`: The table never outgrows the `max_count` slots of the
  copy, so `CHECK_LE(actual_count, max_count)` holds.
* `VtableInv.linkLocalMethod`, `VtableInv.foldlM`: The loop keeps the
  invariant.
* `vtable_consistent`: A linked vtable keeps the superclass's slots, each
  overridden only by an accessible non-final method of the same name and
  signature; each virtual method sits at its method index; and the new
  slots hold methods that override nothing they could.
-/

namespace ArtRuntime

namespace ClassLinker

/-- What `LinkVirtualMethods` reads of a method: its name and signature,
    which `MethodHelper::HasSameNameAndSignature` compares; whether the class
    being linked may access it, `klass->CanAccessMember` of its declaring
    class and access flags; and `ArtMethod::IsFinal`. -/
structure MethodAccess (α σ : Type) where
  name_and_signature : α → σ
  can_access : α → Bool
  is_final : α → Bool

/-- A class's vtable, and the method index of each of its virtual methods in
    their order, as `SetMethodIndex` stores it through a `uint16_t`. -/
structure LinkedVtable (α : Type) where
  vtable : List α
  method_index : List UInt16
  deriving DecidableEq

/-- `IsUint(16, value)`. -/
def isUint16 (value : Nat) : Bool := value < 2 ^ 16

section

variable {α σ : Type} [DecidableEq σ] (ma : MethodAccess α σ)

/-- The inner loop of `LinkVirtualMethods` from slot `j` on: the first
    entry with `local_method`'s name and signature that the class can
    access, with its slot, or `none` when the loop reaches `actual_count`. -/
def findSuperMethod (local_method : α) : List α → Nat → Option (Nat × α)
  | [], _ => none
  | super_method :: rest, j =>
    if ma.name_and_signature local_method = ma.name_and_signature super_method then
      if ma.can_access super_method then some (j, super_method)
      -- "would have incorrectly overridden the package-private method": the search goes on
      else findSuperMethod local_method rest (j + 1)
    else findSuperMethod local_method rest (j + 1)

/-- One turn of the loop over the class's virtual methods: `local_method`
    overrides the entry the search finds, unless that entry is final
    (`ThrowLinkageError`), or is appended at `actual_count`. -/
def linkLocalMethod (linked : LinkedVtable α) (local_method : α) : Option (LinkedVtable α) :=
  match findSuperMethod ma local_method linked.vtable 0 with
  | some (j, super_method) =>
    if ma.is_final super_method then none
    else some ⟨linked.vtable.set j local_method, linked.method_index ++ [j.toUInt16]⟩
  | none =>
    some ⟨linked.vtable ++ [local_method],
      linked.method_index ++ [linked.vtable.length.toUInt16]⟩

/-- `ClassLinker::LinkVirtualMethods(klass)`, given the superclass's vtable
    (`none` for `java.lang.Object`) and the class's virtual methods; `none`
    where it returns `false`. -/
def linkVirtualMethods (super_vtable : Option (List α)) (virtual_methods : List α) :
    Option (LinkedVtable α) :=
  match super_vtable with
  | some super_vtable => do
    let linked ← virtual_methods.foldlM (linkLocalMethod ma) ⟨super_vtable, []⟩
    -- "Too many methods defined on class"
    if isUint16 linked.vtable.length then some linked else none
  | none =>
    if isUint16 virtual_methods.length then
      some ⟨virtual_methods,
        (List.range virtual_methods.length).map fun i => (i &&& 0xFFFF).toUInt16⟩
    else none

/-! ### The search and one turn of the loop -/

theorem findSuperMethod_cons (local_method super_method : α) (rest : List α) (j : Nat) :
    findSuperMethod ma local_method (super_method :: rest) j =
      if ma.name_and_signature local_method = ma.name_and_signature super_method ∧
          ma.can_access super_method = true then some (j, super_method)
      else findSuperMethod ma local_method rest (j + 1) := by
  by_cases hsig : ma.name_and_signature local_method = ma.name_and_signature super_method
  · by_cases hacc : ma.can_access super_method = true
    · simp only [findSuperMethod, hsig, hacc, and_self, if_true]
    · rw [Bool.not_eq_true] at hacc
      simp only [findSuperMethod, hsig, hacc, Bool.false_eq_true, and_false, ↓reduceIte]
  · simp only [findSuperMethod, hsig, false_and, if_false]

/-- The entry the search stops at has the method's name and signature and is
    accessible. -/
theorem findSuperMethod_eq_some {local_method : α} {vtable : List α} {j k : Nat}
    {super_method : α} (h : findSuperMethod ma local_method vtable j = some (k, super_method)) :
    j ≤ k ∧ vtable[k - j]? = some super_method ∧
      ma.name_and_signature local_method = ma.name_and_signature super_method ∧
      ma.can_access super_method = true := by
  induction vtable generalizing j with
  | nil => simp only [findSuperMethod, reduceCtorEq] at h
  | cons head rest ih =>
    rw [findSuperMethod_cons] at h
    by_cases hfound : ma.name_and_signature local_method = ma.name_and_signature head ∧
        ma.can_access head = true
    · rw [if_pos hfound, Option.some.injEq, Prod.mk.injEq] at h
      rcases h with ⟨rfl, rfl⟩
      exact ⟨le_refl j, by simp, hfound⟩
    · rw [if_neg hfound] at h
      rcases ih h with ⟨hle, hget, hsig, hacc⟩
      refine ⟨by omega, ?_, hsig, hacc⟩
      rw [show k - j = k - (j + 1) + 1 by omega, List.getElem?_cons_succ]
      exact hget

/-- When the search finds nothing, every entry with the method's name and
    signature is out of the class's reach. -/
theorem findSuperMethod_eq_none {local_method : α} {vtable : List α} {j : Nat}
    (h : findSuperMethod ma local_method vtable j = none) {super_method : α}
    (hmem : super_method ∈ vtable)
    (hsig : ma.name_and_signature local_method = ma.name_and_signature super_method) :
    ma.can_access super_method = false := by
  induction vtable generalizing j with
  | nil => cases hmem
  | cons head rest ih =>
    rw [findSuperMethod_cons] at h
    by_cases hfound : ma.name_and_signature local_method = ma.name_and_signature head ∧
        ma.can_access head = true
    · rw [if_pos hfound] at h
      cases h
    · rw [if_neg hfound] at h
      rcases List.mem_cons.1 hmem with rfl | hrest
      · simpa [hsig] using hfound
      · exact ih h hrest

theorem linkLocalMethod_of_found {linked : LinkedVtable α} {local_method super_method : α}
    {j : Nat} (hfind : findSuperMethod ma local_method linked.vtable 0 = some (j, super_method)) :
    linkLocalMethod ma linked local_method =
      if ma.is_final super_method then none
      else some ⟨linked.vtable.set j local_method, linked.method_index ++ [j.toUInt16]⟩ := by
  rw [linkLocalMethod, hfind]

theorem linkLocalMethod_of_not_found {linked : LinkedVtable α} {local_method : α}
    (hfind : findSuperMethod ma local_method linked.vtable 0 = none) :
    linkLocalMethod ma linked local_method =
      some ⟨linked.vtable ++ [local_method],
        linked.method_index ++ [linked.vtable.length.toUInt16]⟩ := by
  rw [linkLocalMethod, hfind]

/-- One turn adds at most one slot. -/
theorem length_linkLocalMethod {linked linked' : LinkedVtable α} {local_method : α}
    (h : linkLocalMethod ma linked local_method = some linked') :
    linked'.vtable.length ≤ linked.vtable.length + 1 := by
  cases hfind : findSuperMethod ma local_method linked.vtable 0 with
  | none =>
    rw [linkLocalMethod_of_not_found ma hfind, Option.some.injEq] at h
    rw [← h, List.length_append, List.length_singleton]
  | some found =>
    rw [linkLocalMethod_of_found ma hfind] at h
    split_ifs at h
    rw [Option.some.injEq] at h
    rw [← h, List.length_set]
    omega

theorem length_foldlM_linkLocalMethod {linked linked' : LinkedVtable α} {rest : List α}
    (h : rest.foldlM (linkLocalMethod ma) linked = some linked') :
    linked'.vtable.length ≤ linked.vtable.length + rest.length := by
  induction rest generalizing linked with
  | nil =>
    rw [List.foldlM_nil, Option.pure_def, Option.some.injEq] at h
    rw [h, List.length_nil]
    omega
  | cons local_method rest ih =>
    simp only [List.foldlM_cons, Option.bind_eq_bind, Option.bind_eq_some_iff] at h
    rcases h with ⟨next, hnext, hrest⟩
    have hstep := length_linkLocalMethod ma hnext
    have hrun := ih hrest
    rw [List.length_cons]
    omega

/-- The linked table fits in the `max_count` slots `CopyOf` allocates, so
    `CHECK_LE(actual_count, max_count)` holds and every append stays inside
    the copy. -/
theorem vtable_length_le {super_vtable virtual_methods : List α} {linked : LinkedVtable α}
    (h : linkVirtualMethods ma (some super_vtable) virtual_methods = some linked) :
    linked.vtable.length ≤ virtual_methods.length + super_vtable.length := by
  simp only [linkVirtualMethods, Option.bind_eq_bind, Option.bind_eq_some_iff] at h
  rcases h with ⟨linked', hfold, hcheck⟩
  split_ifs at hcheck
  rw [Option.some.injEq] at hcheck
  have hrun := length_foldlM_linkLocalMethod ma hfold
  rw [← hcheck]
  dsimp only at hrun
  omega

example : linkVirtualMethods ⟨id, fun _ => true, fun _ => false⟩ (some [1, 2]) [2, 3] =
    some ⟨[1, 2, 3], [1, 2]⟩ := by decide

end

/-! ### The invariant of the loop -/

/-- Method indices that name, for each of the methods `done`, a slot of
    `vtable` that holds it. -/
def IndexSlots {α : Type} (vtable : List α) (method_index : List UInt16) (done : List α) : Prop :=
  ∀ (i : Nat) (idx : UInt16) (m : α), method_index[i]? = some idx → done[i]? = some m →
    ∃ n : Nat, idx = n.toUInt16 ∧ vtable[n]? = some m

section

variable {α : Type} {vtable : List α} {method_index : List UInt16} {done : List α}

theorem IndexSlots.append (h : IndexSlots vtable method_index done)
    (hlen : method_index.length = done.length) {n : Nat} {m : α} (hn : vtable[n]? = some m) :
    IndexSlots vtable (method_index ++ [n.toUInt16]) (done ++ [m]) := by
  intro i idx m' hidx hm'
  by_cases hi : i < done.length
  · rw [List.getElem?_append_left (hlen ▸ hi)] at hidx
    rw [List.getElem?_append_left hi] at hm'
    exact h i idx m' hidx hm'
  · -- the method just linked
    rw [List.getElem?_append_right (by omega), List.getElem?_singleton] at hidx hm'
    split_ifs at hidx hm'
    rw [Option.some.injEq] at hidx hm'
    exact ⟨n, hidx.symm, hm' ▸ hn⟩

theorem IndexSlots.append_vtable (h : IndexSlots vtable method_index done) (a : α) :
    IndexSlots (vtable ++ [a]) method_index done := by
  intro i idx m hidx hm
  rcases h i idx m hidx hm with ⟨n, hidx', hn⟩
  have hlt : n < vtable.length := (List.getElem?_eq_some_iff.1 hn).1
  exact ⟨n, hidx', by rw [List.getElem?_append_left hlt, hn]⟩

/-- Overwriting a slot that holds none of the methods keeps their indices. -/
theorem IndexSlots.set (h : IndexSlots vtable method_index done) {j : Nat}
    (hj : ∀ m ∈ done, vtable[j]? ≠ some m) (a : α) :
    IndexSlots (vtable.set j a) method_index done := by
  intro i idx m hidx hm
  rcases h i idx m hidx hm with ⟨n, hidx', hn⟩
  have hne : j ≠ n := by
    rintro rfl
    exact hj m (List.mem_of_getElem? hm) hn
  exact ⟨n, hidx', by rw [List.getElem?_set_ne hne, hn]⟩

end

section

variable {α σ : Type} {ma : MethodAccess α σ}

/-- What the loop keeps once the methods `done` are linked from the
    superclass's vtable `super_vtable`. -/
structure VtableInv (ma : MethodAccess α σ) (super_vtable done : List α)
    (linked : LinkedVtable α) : Prop where
  super_le : super_vtable.length ≤ linked.vtable.length
  index_length : linked.method_index.length = done.length
  index_slots : IndexSlots linked.vtable linked.method_index done
  /-- A superclass slot holds its method, or a linked method that overrides it. -/
  super_slot : ∀ (j : Nat) (super_method : α), super_vtable[j]? = some super_method →
    ∃ m, linked.vtable[j]? = some m ∧ (m = super_method ∨ m ∈ done ∧
      ma.name_and_signature m = ma.name_and_signature super_method ∧
      ma.can_access super_method = true ∧ ma.is_final super_method = false)
  /-- A new slot holds a linked method that overrides no superclass method
      the class can access. -/
  own_slot : ∀ (j : Nat) (m : α), super_vtable.length ≤ j → linked.vtable[j]? = some m →
    m ∈ done ∧
    ∀ super_method ∈ super_vtable,
      ma.name_and_signature super_method = ma.name_and_signature m →
      ma.can_access super_method = false

theorem VtableInv.initial (super_vtable : List α) :
    VtableInv ma super_vtable [] ⟨super_vtable, []⟩ where
  super_le := le_refl _
  index_length := rfl
  index_slots := fun i idx m hidx _ => by simp at hidx
  super_slot := fun _ super_method h => ⟨super_method, h, Or.inl rfl⟩
  own_slot := fun j m hj h => by
    have hlt := (List.getElem?_eq_some_iff.1 h).1
    dsimp only at hlt
    omega

/-- `java.lang.Object`'s table: its virtual methods, each at its own
    position. -/
theorem VtableInv.object {virtual_methods : List α} (hlen : virtual_methods.length < 2 ^ 16) :
    VtableInv ma [] virtual_methods ⟨virtual_methods,
      (List.range virtual_methods.length).map fun i => (i &&& 0xFFFF).toUInt16⟩ where
  super_le := Nat.zero_le _
  index_length := by rw [List.length_map, List.length_range]
  index_slots := fun i idx m hidx hm => by
    rw [List.getElem?_map, List.getElem?_range (List.getElem?_eq_some_iff.1 hm).1,
      Option.map_some, Option.some.injEq] at hidx
    have hi : i < 2 ^ 16 := lt_of_lt_of_le (List.getElem?_eq_some_iff.1 hm).1 hlen.le
    refine ⟨i, ?_, hm⟩
    rw [← hidx, show (0xFFFF : Nat) = 2 ^ 16 - 1 from rfl, Nat.and_two_pow_sub_one_eq_mod,
      Nat.mod_eq_of_lt hi]
  super_slot := fun j _ h => by simp at h
  own_slot := fun _ m _ h => ⟨List.mem_of_getElem? h, fun _ hmem => by cases hmem⟩

variable [DecidableEq σ] {super_vtable done : List α} {linked linked' : LinkedVtable α}
  {local_method : α}

/-- The slot the search stops at, for a method whose name and signature no
    linked method has, is a superclass slot that still holds the
    superclass's method. -/
theorem VtableInv.found_slot (hinv : VtableInv ma super_vtable done linked)
    (hfresh : ma.name_and_signature local_method ∉ done.map ma.name_and_signature)
    {j : Nat} {super_method : α}
    (hfind : findSuperMethod ma local_method linked.vtable 0 = some (j, super_method)) :
    super_vtable[j]? = some super_method := by
  rcases findSuperMethod_eq_some ma hfind with ⟨-, hget, hsig, -⟩
  rw [Nat.sub_zero] at hget
  have hnot_done : super_method ∉ done := fun hmem =>
    hfresh (List.mem_map.2 ⟨super_method, hmem, hsig.symm⟩)
  by_cases hj : j < super_vtable.length
  · rcases hinv.super_slot j _ (List.getElem?_eq_getElem hj) with ⟨m, hm, hcase⟩
    have hm_eq : m = super_method := Option.some.inj (hm.symm.trans hget)
    rcases hcase with heq | ⟨hmem, -⟩
    · rw [List.getElem?_eq_getElem hj, ← heq, hm_eq]
    · exact absurd (hm_eq ▸ hmem) hnot_done
  · exact absurd (hinv.own_slot j super_method (by omega) hget).1 hnot_done

/-- One turn of the loop keeps the invariant, for a method whose name and
    signature no linked method has. -/
theorem VtableInv.linkLocalMethod (hinv : VtableInv ma super_vtable done linked)
    (hfresh : ma.name_and_signature local_method ∉ done.map ma.name_and_signature)
    (h : linkLocalMethod ma linked local_method = some linked') :
    VtableInv ma super_vtable (done ++ [local_method]) linked' := by
  have hdone : ∀ m ∈ done, m ∈ done ++ [local_method] := fun m hm => List.mem_append_left _ hm
  cases hfind : findSuperMethod ma local_method linked.vtable 0 with
  | some found =>
    -- `local_method` overrides the superclass method in slot `j`
    rcases found with ⟨j, super_method⟩
    rw [linkLocalMethod_of_found ma hfind] at h
    split_ifs at h with hfinal
    rw [Option.some.injEq] at h
    subst h
    rcases findSuperMethod_eq_some ma hfind with ⟨-, hget, hsig, hacc⟩
    rw [Nat.sub_zero] at hget
    have hslot := hinv.found_slot hfresh hfind
    have hj : j < super_vtable.length := (List.getElem?_eq_some_iff.1 hslot).1
    have hj' : j < linked.vtable.length := (List.getElem?_eq_some_iff.1 hget).1
    have hsig_ne : ∀ m ∈ done, ma.name_and_signature m ≠ ma.name_and_signature local_method :=
      fun m hm heq => hfresh (List.mem_map.2 ⟨m, hm, heq⟩)
    refine ⟨?_, ?_, ?_, ?_, ?_⟩
    · rw [List.length_set]
      exact hinv.super_le
    · rw [List.length_append, List.length_append, hinv.index_length, List.length_singleton,
        List.length_singleton]
    · refine (hinv.index_slots.set (fun m hm hm' => ?_) local_method).append
        hinv.index_length (List.getElem?_set_self hj')
      rw [hget, Option.some.injEq] at hm'
      exact hsig_ne m hm (hm' ▸ hsig.symm)
    · intro j' super_method' hs'
      by_cases hjj : j = j'
      · subst hjj
        rw [hslot, Option.some.injEq] at hs'
        subst hs'
        exact ⟨local_method, List.getElem?_set_self hj', Or.inr
          ⟨List.mem_append_right _ (List.mem_singleton_self _), hsig, hacc,
            Bool.not_eq_true _ ▸ hfinal⟩⟩
      · rcases hinv.super_slot j' super_method' hs' with ⟨m, hm, hcase⟩
        refine ⟨m, by rw [List.getElem?_set_ne hjj, hm], ?_⟩
        rcases hcase with heq | ⟨hmem, hrest⟩
        · exact Or.inl heq
        · exact Or.inr ⟨hdone m hmem, hrest⟩
    · intro j' m hj'' hm
      rw [List.getElem?_set_ne (by omega)] at hm
      rcases hinv.own_slot j' m hj'' hm with ⟨hmem, hnone⟩
      exact ⟨hdone m hmem, hnone⟩
  | none =>
    -- `local_method` takes a new slot at `actual_count`
    rw [linkLocalMethod_of_not_found ma hfind, Option.some.injEq] at h
    subst h
    have hsuper : super_vtable.length ≤ linked.vtable.length := hinv.super_le
    refine ⟨?_, ?_, ?_, ?_, ?_⟩
    · rw [List.length_append]
      omega
    · rw [List.length_append, List.length_append, hinv.index_length, List.length_singleton,
        List.length_singleton]
    · exact (hinv.index_slots.append_vtable local_method).append hinv.index_length
        List.getElem?_concat_length
    · intro j super_method hs
      have hj : j < linked.vtable.length :=
        lt_of_lt_of_le (List.getElem?_eq_some_iff.1 hs).1 hsuper
      rcases hinv.super_slot j super_method hs with ⟨m, hm, hcase⟩
      refine ⟨m, by rw [List.getElem?_append_left hj, hm], ?_⟩
      rcases hcase with heq | ⟨hmem, hrest⟩
      · exact Or.inl heq
      · exact Or.inr ⟨hdone m hmem, hrest⟩
    · intro j m hj hm
      by_cases hjlt : j < linked.vtable.length
      · rw [List.getElem?_append_left hjlt] at hm
        rcases hinv.own_slot j m hj hm with ⟨hmem, hnone⟩
        exact ⟨hdone m hmem, hnone⟩
      · -- the new slot: no superclass method the class can access has its signature
        rw [List.getElem?_append_right (by omega), List.getElem?_singleton] at hm
        split_ifs at hm
        rw [Option.some.injEq] at hm
        subst hm
        refine ⟨List.mem_append_right _ (List.mem_singleton_self _), ?_⟩
        intro super_method hmem hsig
        rcases List.mem_iff_getElem?.1 hmem with ⟨k, hk⟩
        rcases hinv.super_slot k super_method hk with ⟨m, hm, hcase⟩
        rcases hcase with rfl | ⟨hmem', hsig', -⟩
        · exact findSuperMethod_eq_none ma hfind (List.mem_of_getElem? hm) hsig.symm
        · exact absurd (List.mem_map.2 ⟨m, hmem', hsig'.trans hsig⟩) hfresh

/-- The whole loop keeps the invariant, for methods of distinct names and
    signatures. -/
theorem VtableInv.foldlM {rest : List α} (hinv : VtableInv ma super_vtable done linked)
    (hsig : ((done ++ rest).map ma.name_and_signature).Nodup)
    (h : rest.foldlM (ClassLinker.linkLocalMethod ma) linked = some linked') :
    VtableInv ma super_vtable (done ++ rest) linked' := by
  induction rest generalizing done linked with
  | nil =>
    rw [List.foldlM_nil, Option.pure_def, Option.some.injEq] at h
    rw [List.append_nil, ← h]
    exact hinv
  | cons local_method rest ih =>
    simp only [List.foldlM_cons, Option.bind_eq_bind, Option.bind_eq_some_iff] at h
    rcases h with ⟨next, hnext, hrest⟩
    have hfresh : ma.name_and_signature local_method ∉ done.map ma.name_and_signature := by
      intro hmem
      rw [List.map_append, List.map_cons] at hsig
      exact (List.nodup_append.1 hsig).2.2 _ hmem _ List.mem_cons_self rfl
    have hrun := ih (hinv.linkLocalMethod hfresh hnext)
      (by rw [List.append_assoc, List.singleton_append]; exact hsig) hrest
    rwa [List.append_assoc, List.singleton_append] at hrun

theorem linkVirtualMethods_inv {super_vtable : Option (List α)} {virtual_methods : List α}
    (hsig : (virtual_methods.map ma.name_and_signature).Nodup)
    (h : linkVirtualMethods ma super_vtable virtual_methods = some linked) :
    VtableInv ma (super_vtable.getD []) virtual_methods linked ∧
      linked.vtable.length < 2 ^ 16 := by
  cases super_vtable with
  | some super_vtable =>
    simp only [linkVirtualMethods, Option.bind_eq_bind, Option.bind_eq_some_iff] at h
    rcases h with ⟨linked', hfold, hcheck⟩
    split_ifs at hcheck with hlen
    rw [Option.some.injEq] at hcheck
    subst hcheck
    have hinit : VtableInv ma super_vtable [] ⟨super_vtable, []⟩ := VtableInv.initial super_vtable
    have hinv := hinit.foldlM (by rw [List.nil_append]; exact hsig) hfold
    rw [List.nil_append] at hinv
    exact ⟨hinv, of_decide_eq_true hlen⟩
  | none =>
    simp only [linkVirtualMethods] at h
    split_ifs at h with hlen
    rw [Option.some.injEq] at h
    subst h
    exact ⟨VtableInv.object (of_decide_eq_true hlen), of_decide_eq_true hlen⟩

variable (ma) in
/-- A linked vtable, for a class whose virtual methods have distinct names
    and signatures: it has fewer than `2^16` slots and at least its
    superclass's; each superclass slot holds the superclass's method or one
    of the class's methods of the same name and signature that overrides it,
    the superclass's method being accessible and not final; each virtual
    method sits in the slot its method index names; and each new slot holds
    one of the class's methods that has the name and signature of no
    accessible superclass method. -/
theorem vtable_consistent (super_vtable : Option (List α)) (virtual_methods : List α)
    (hsig : (virtual_methods.map ma.name_and_signature).Nodup) {linked : LinkedVtable α}
    (h : linkVirtualMethods ma super_vtable virtual_methods = some linked) :
    (linked.vtable.length < 2 ^ 16 ∧ (super_vtable.getD []).length ≤ linked.vtable.length) ∧
    (∀ (j : Nat) (super_method : α), (super_vtable.getD [])[j]? = some super_method →
      ∃ m, linked.vtable[j]? = some m ∧ (m = super_method ∨ m ∈ virtual_methods ∧
        ma.name_and_signature m = ma.name_and_signature super_method ∧
        ma.can_access super_method = true ∧ ma.is_final super_method = false)) ∧
    (linked.method_index.length = virtual_methods.length ∧
      ∀ (i : Nat) (idx : UInt16) (m : α), linked.method_index[i]? = some idx →
        virtual_methods[i]? = some m →
        linked.vtable[idx.toNat]? = some m) ∧
    ∀ (j : Nat) (m : α), (super_vtable.getD []).length ≤ j → linked.vtable[j]? = some m →
      m ∈ virtual_methods ∧ ∀ super_method ∈ super_vtable.getD [],
        ma.name_and_signature super_method = ma.name_and_signature m →
        ma.can_access super_method = false := by
  rcases linkVirtualMethods_inv hsig h with ⟨hinv, hlen⟩
  refine ⟨⟨hlen, hinv.super_le⟩, hinv.super_slot, ⟨hinv.index_length, ?_⟩, hinv.own_slot⟩
  intro i idx m hidx hm
  rcases hinv.index_slots i idx m hidx hm with ⟨n, rfl, hn⟩
  -- the slot is below `2^16`, so `SetMethodIndex`'s `uint16_t` keeps it
  have hn_lt : n < 2 ^ 16 := lt_trans (List.getElem?_eq_some_iff.1 hn).1 hlen
  rw [UInt16.toNat_ofNat_of_lt' hn_lt]
  exact hn

/-- The methods of the runs below: a method's name and signature is its last
    digit, method `12` is package-private to another package and method `13`
    is final. -/
def sampleAccess : MethodAccess Nat Nat :=
  ⟨fun m => m % 10, fun m => m != 12, fun m => m == 13⟩

example : linkVirtualMethods sampleAccess (some [13]) [3] = none := by decide

/-- Method `22` passes over the inaccessible `12` and overrides `2`; `34` and
    `5` take new slots. -/
theorem vtable_consistent_sample :
    ([22, 34, 5].map sampleAccess.name_and_signature).Nodup ∧
    linkVirtualMethods sampleAccess (some [1, 12, 2, 13]) [22, 34, 5] =
      some ⟨[1, 12, 22, 13, 34, 5], [2, 4, 5]⟩ ∧
    (([1, 12, 22, 13, 34, 5] : List Nat).length < 2 ^ 16 ∧
      ((some [1, 12, 2, 13]).getD []).length ≤ ([1, 12, 22, 13, 34, 5] : List Nat).length) ∧
    (∀ (j : Nat) (super_method : Nat), ((some [1, 12, 2, 13]).getD [])[j]? = some super_method →
      ∃ m, ([1, 12, 22, 13, 34, 5] : List Nat)[j]? = some m ∧ (m = super_method ∨
        m ∈ [22, 34, 5] ∧
        sampleAccess.name_and_signature m = sampleAccess.name_and_signature super_method ∧
        sampleAccess.can_access super_method = true ∧
        sampleAccess.is_final super_method = false)) ∧
    (([2, 4, 5] : List UInt16).length = ([22, 34, 5] : List Nat).length ∧
      ∀ (i : Nat) (idx : UInt16) (m : Nat), ([2, 4, 5] : List UInt16)[i]? = some idx →
        ([22, 34, 5] : List Nat)[i]? = some m →
        ([1, 12, 22, 13, 34, 5] : List Nat)[idx.toNat]? = some m) ∧
    ∀ (j : Nat) (m : Nat), ((some [1, 12, 2, 13]).getD []).length ≤ j →
      ([1, 12, 22, 13, 34, 5] : List Nat)[j]? = some m →
      m ∈ [22, 34, 5] ∧ ∀ super_method ∈ (some [1, 12, 2, 13]).getD [],
        sampleAccess.name_and_signature super_method = sampleAccess.name_and_signature m →
        sampleAccess.can_access super_method = false :=
  ⟨by decide, by decide, vtable_consistent sampleAccess (some [1, 12, 2, 13]) [22, 34, 5] (by decide)
    (show linkVirtualMethods sampleAccess (some [1, 12, 2, 13]) [22, 34, 5] =
      some ⟨[1, 12, 22, 13, 34, 5], [2, 4, 5]⟩ by decide)⟩

/-- Two virtual methods of one name and signature, `4` and `14`, and nothing
    to override: `14` overrides `4`, which is left out of the table while its
    method index `0` names the slot that holds `14`. -/
theorem duplicate_signature_loses_method :
    linkVirtualMethods sampleAccess (some []) [4, 14] = some ⟨[14], [0, 0]⟩ := by
  decide

end

end ClassLinker

end ArtRuntime
