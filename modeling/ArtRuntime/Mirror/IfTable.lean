import Mathlib.Logic.Relation
import Mathlib.Tactic.SplitIfs
import ArtRuntime.Core.ListSet

/-!
# Interface Tables

`ClassLinker::LinkInterfaceMethods` gives each class its `iftable_`: the
superclass's iftable, then each direct interface not yet listed, followed by
the entries of that interface's own iftable that are not. Classes are linked
one after another, each after its superclass and its interfaces, so every
table a class copies from is complete when it is read.

Classes are named by their place in the order of linking, `java.lang.Object`
first. Linking keeps the invariant `Linked`: only `java.lang.Object` lacks a
superclass, a superclass is not an interface, and each iftable lists, once
each, exactly the interfaces reachable from its class over superclass and
direct-interface edges. That last field is what `Class::Implements` relies on
when it scans the iftable.

## Main definitions

* `ClassTable`: The linked classes, each superclass before its subclasses.
* `linkSuperClass`, `flattenInterfaces`, `linkInterfaceMethods`, `linkClass`,
  `linkAll`: Linking.
* `ClassTable.Edge`: An edge to a superclass or a direct interface.
* `Linked`: The invariant of linking.

## Theorems

* `transGen_iff_of_agree`: Downward paths only see the relation below their start.
* `mem_flattenInterfaces`: What the flattening loop lists.
* `Linked.linkClass`, `linked_linkAll`: Linking keeps the invariant.
-/

open Relation

/-- A path along a relation whose steps go down stays below its start, so
    two such relations that agree below `n` have the same paths from there. -/
theorem transGen_of_agree {r r' : Nat → Nat → Prop} {n : Nat} (hdec : ∀ a b, r a b → b < a)
    (hagree : ∀ a b, a < n → r a b → r' a b) {a c : Nat} (hpath : TransGen r a c) (ha : a < n) :
    TransGen r' a c := by
  induction hpath using TransGen.head_induction_on with
  | single hac => exact .single (hagree _ _ ha hac)
  | head hab _ ih => exact .head (hagree _ _ ha hab) (ih (Nat.lt_trans (hdec _ _ hab) ha))

theorem transGen_iff_of_agree {r r' : Nat → Nat → Prop} {n : Nat} (hdec : ∀ a b, r a b → b < a)
    (hdec' : ∀ a b, r' a b → b < a) (hagree : ∀ a b, a < n → (r a b ↔ r' a b)) {a c : Nat}
    (ha : a < n) : TransGen r a c ↔ TransGen r' a c :=
  ⟨fun h => transGen_of_agree hdec (fun a b ha => (hagree a b ha).mp) h ha,
    fun h => transGen_of_agree hdec' (fun a b ha => (hagree a b ha).mpr) h ha⟩

namespace ArtRuntime

namespace Mirror

open ListSet

/-- A class as loaded, before linking: its interface flag (kAccInterface),
    its superclass and its direct interfaces, each named by its index in the
    class table. -/
structure LoadedClass where
  isInterface : Bool
  super : Option Nat
  interfaces : List Nat
  deriving DecidableEq, Repr

/-- A linked class with its iftable. -/
structure Class extends LoadedClass where
  iftable : List Nat
  deriving DecidableEq, Repr

/-- The classes linked so far, in the order of linking, `java.lang.Object`
    first. A superclass is linked before its class, which makes the superclass
    walk of `Class::IsSubClass` terminate. -/
structure ClassTable where
  classes : List Class
  super_lt : ∀ i s, classes[i]?.bind (fun c : Class => c.super) = some s → s < i

private theorem getElem?_snoc {α : Type} (l : List α) (c : α) (i : Nat) :
    (l ++ [c])[i]? = if i = l.length then some c else l[i]? := by
  rcases Nat.lt_trichotomy i l.length with hi | rfl | hi
  · rw [if_neg (Nat.ne_of_lt hi), List.getElem?_append_left hi]
  · simp
  · rw [if_neg (Nat.ne_of_gt hi), List.getElem?_eq_none (by simp; omega), List.getElem?_eq_none (Nat.le_of_lt hi)]

namespace ClassTable

variable (ct : ClassTable)

/-- The table before any class is linked. -/
def empty : ClassTable := ⟨[], by simp⟩

/-- The superclass of class `i`; none for `java.lang.Object` and for an
    index outside the table. -/
def superOf (i : Nat) : Option Nat := ct.classes[i]?.bind (fun c : Class => c.super)

/-- Whether class `i` is an interface; false outside the table. -/
def isInterface (i : Nat) : Bool := (ct.classes[i]?.map (fun c : Class => c.isInterface)).getD false

/-- The direct interfaces of class `i`. -/
def interfacesOf (i : Nat) : List Nat := (ct.classes[i]?.map (fun c : Class => c.interfaces)).getD []

/-- The iftable of class `i`. -/
def ifTableOf (i : Nat) : List Nat := (ct.classes[i]?.map (fun c : Class => c.iftable)).getD []

/-- An edge of the hierarchy: from a class to its superclass or to one of its
    direct interfaces. -/
def Edge (i j : Nat) : Prop := ct.superOf i = some j ∨ j ∈ ct.interfacesOf i

/-- The table with one more class, whose superclass is already in it. -/
def push (c : Class) (h : ∀ s, c.super = some s → s < ct.classes.length) : ClassTable where
  classes := ct.classes ++ [c]
  super_lt i s hs := by
    rw [getElem?_snoc] at hs
    split_ifs at hs with hi
    · exact hi ▸ h s hs
    · exact ct.super_lt i s hs

variable {ct}

theorem superOf_lt {i s : Nat} (h : ct.superOf i = some s) : s < i := ct.super_lt i s h

theorem superOf_lt_length {i s : Nat} (h : ct.superOf i = some s) : s < ct.classes.length := by
  by_contra hs
  have hi : ct.classes.length ≤ i := Nat.le_trans (Nat.le_of_not_lt hs) (Nat.le_of_lt (superOf_lt h))
  rw [superOf, List.getElem?_eq_none hi] at h
  cases h

theorem lt_of_isInterface {j : Nat} (h : ct.isInterface j = true) : j < ct.classes.length := by
  by_contra hj
  rw [isInterface, List.getElem?_eq_none (Nat.le_of_not_lt hj)] at h
  exact Bool.false_ne_true h

theorem not_edge_of_le {i j : Nat} (hi : ct.classes.length ≤ i) : ¬ ct.Edge i j := by
  simp [Edge, superOf, interfacesOf, List.getElem?_eq_none hi]

theorem not_transGen_of_le {i j : Nat} (hi : ct.classes.length ≤ i) : ¬ TransGen ct.Edge i j := by
  intro h
  rcases TransGen.head'_iff.mp h with ⟨b, hib, -⟩
  exact not_edge_of_le hi hib

section Push

variable {c : Class} {h : ∀ s, c.super = some s → s < ct.classes.length} {i : Nat}

@[simp] theorem length_push : (ct.push c h).classes.length = ct.classes.length + 1 := by
  simp [push]

theorem superOf_push :
    (ct.push c h).superOf i = if i = ct.classes.length then c.super else ct.superOf i := by
  simp only [superOf, push, getElem?_snoc]
  split_ifs <;> rfl

theorem isInterface_push :
    (ct.push c h).isInterface i = if i = ct.classes.length then c.isInterface else ct.isInterface i := by
  simp only [isInterface, push, getElem?_snoc]
  split_ifs <;> rfl

theorem interfacesOf_push :
    (ct.push c h).interfacesOf i = if i = ct.classes.length then c.interfaces else ct.interfacesOf i := by
  simp only [interfacesOf, push, getElem?_snoc]
  split_ifs <;> rfl

theorem ifTableOf_push :
    (ct.push c h).ifTableOf i = if i = ct.classes.length then c.iftable else ct.ifTableOf i := by
  simp only [ifTableOf, push, getElem?_snoc]
  split_ifs <;> rfl

theorem edge_push_iff (hi : i < ct.classes.length) (j : Nat) :
    (ct.push c h).Edge i j ↔ ct.Edge i j := by
  simp only [Edge, superOf_push, interfacesOf_push, if_neg (Nat.ne_of_lt hi)]

theorem edge_push_self_iff (j : Nat) :
    (ct.push c h).Edge ct.classes.length j ↔ c.super = some j ∨ j ∈ c.interfaces := by
  simp only [Edge, superOf_push, interfacesOf_push, ↓reduceIte]

end Push

end ClassTable

open ClassTable

/-- ClassLinker::LinkSuperClass: `java.lang.Object`, linked first, must have
    no superclass; every other class needs one that is linked and is not an
    interface. The checks on access, on `final` and on `java.lang.ref.Reference`
    read flags this model leaves out. -/
def linkSuperClass (ct : ClassTable) (klass : LoadedClass) : Bool :=
  match klass.super with
  | none => ct.classes.isEmpty
  | some super => decide (super < ct.classes.length) && !ct.isInterface super

/-- The loop of ClassLinker::LinkInterfaceMethods that flattens the interface
    hierarchy: a direct interface not yet in the table is appended, followed by
    the entries of its own iftable that are not; one already there is skipped
    whole. A direct interface that is not an interface fails the link with an
    IncompatibleClassChangeError. -/
def flattenInterfaces (ct : ClassTable) (iftable : List Nat) : List Nat → Option (List Nat)
  | [] => some iftable
  | interface :: interfaces =>
    if !ct.isInterface interface then none
    else if interface ∈ iftable then flattenInterfaces ct iftable interfaces
    else flattenInterfaces ct (appendAllNew (iftable ++ [interface]) (ct.ifTableOf interface))
      interfaces

/-- ClassLinker::LinkInterfaceMethods, its iftable: the superclass's, then the
    direct interfaces flattened. Its early returns, for a class with no
    interfaces at all or with only its superclass's, return this same table. -/
def linkInterfaceMethods (ct : ClassTable) (klass : LoadedClass) : Option (List Nat) :=
  flattenInterfaces ct ((klass.super.map ct.ifTableOf).getD []) klass.interfaces

section LinkSuperClass

variable {ct : ClassTable} {klass : LoadedClass}

theorem linkSuperClass_none (h : linkSuperClass ct klass = true) (hs : klass.super = none) :
    ct.classes = [] := by
  simpa [linkSuperClass, hs] using h

theorem linkSuperClass_some {s : Nat} (h : linkSuperClass ct klass = true)
    (hs : klass.super = some s) : s < ct.classes.length ∧ ct.isInterface s = false := by
  simpa [linkSuperClass, hs] using h

theorem super_lt_of_linkSuperClass (h : linkSuperClass ct klass = true) :
    ∀ s, klass.super = some s → s < ct.classes.length :=
  fun _ hs => (linkSuperClass_some h hs).1

end LinkSuperClass

/-- ClassLinker::LinkClass, the steps that build the hierarchy: the
    superclass checks, then the iftable. The class goes at the end of the
    table. -/
def linkClass (ct : ClassTable) (klass : LoadedClass) : Option ClassTable :=
  if h : linkSuperClass ct klass = true then
    (linkInterfaceMethods ct klass).map fun iftable =>
      ct.push ⟨klass, iftable⟩ (super_lt_of_linkSuperClass h)
  else none

/-- Linking the classes of a hierarchy in order, `java.lang.Object` first and
    each class after its superclass and its interfaces. -/
def linkAll (classes : List LoadedClass) : Option ClassTable :=
  classes.foldlM linkClass ClassTable.empty

/-- The invariant of a linked table. -/
structure Linked (ct : ClassTable) : Prop where
  /-- Only `java.lang.Object`, the first class, has no superclass. -/
  super_isSome : ∀ i, 0 < i → i < ct.classes.length → (ct.superOf i).isSome
  super_not_interface : ∀ i s, ct.superOf i = some s → ct.isInterface s = false
  interfaces_lt : ∀ i, ∀ j ∈ ct.interfacesOf i, j < i
  nodup : ∀ i, (ct.ifTableOf i).Nodup
  /-- An iftable lists exactly the interfaces reachable over the edges. -/
  mem_ifTable : ∀ i j, j ∈ ct.ifTableOf i ↔ ct.isInterface j = true ∧ TransGen ct.Edge i j

section Flatten

variable {ct : ClassTable}

theorem isInterface_of_flattenInterfaces {acc tbl : List Nat} :
    ∀ {xs : List Nat}, flattenInterfaces ct acc xs = some tbl → ∀ k ∈ xs, ct.isInterface k = true
  | [], _ => by simp
  | x :: xs, h => by
    unfold flattenInterfaces at h
    by_cases hx : ct.isInterface x = true
    · rw [hx] at h
      intro k hk
      rcases List.mem_cons.mp hk with rfl | hk
      · exact hx
      by_cases hdup : x ∈ acc
      · rw [if_neg (by simp), if_pos hdup] at h
        exact isInterface_of_flattenInterfaces h k hk
      · rw [if_neg (by simp), if_neg hdup] at h
        exact isInterface_of_flattenInterfaces h k hk
    · simp [hx] at h

theorem nodup_flattenInterfaces {acc tbl : List Nat} (hacc : acc.Nodup) :
    ∀ {xs : List Nat}, flattenInterfaces ct acc xs = some tbl → tbl.Nodup
  | [], h => by
    rw [flattenInterfaces, Option.some_inj] at h
    exact h ▸ hacc
  | x :: xs, h => by
    unfold flattenInterfaces at h
    by_cases hx : ct.isInterface x = true
    · rw [hx, if_neg (by simp)] at h
      by_cases hdup : x ∈ acc
      · rw [if_pos hdup] at h
        exact nodup_flattenInterfaces hacc h
      · rw [if_neg hdup] at h
        have hsnoc : (acc ++ [x]).Nodup := List.nodup_append.mpr
          ⟨hacc, List.nodup_singleton x, fun a ha b hb => by
            rw [List.mem_singleton] at hb
            rintro rfl
            exact hdup (hb ▸ ha)⟩
        exact nodup_flattenInterfaces (nodup_appendAllNew hsnoc _) h
    · simp [hx] at h

/-- A list closed under iftables: with an interface, every entry of its
    iftable. -/
def ClosedUnderIfTables (ct : ClassTable) (tbl : List Nat) : Prop :=
  ∀ k ∈ tbl, ∀ j ∈ ct.ifTableOf k, j ∈ tbl

/-- Appending an interface and its iftable keeps a list closed, where
    iftables are themselves closed. -/
theorem ClosedUnderIfTables.append {acc : List Nat} (hacc : ClosedUnderIfTables ct acc)
    (hcl : ∀ k, ClosedUnderIfTables ct (ct.ifTableOf k)) (x : Nat) :
    ClosedUnderIfTables ct (appendAllNew (acc ++ [x]) (ct.ifTableOf x)) := by
  intro k hk j hj
  rw [mem_appendAllNew, List.mem_append, List.mem_singleton] at hk ⊢
  rcases hk with (hk | rfl) | hk
  · exact .inl (.inl (hacc k hk j hj))
  · exact .inr hj
  · exact .inr (hcl x k hk j hj)

/-- What the flattening loop lists, from a table closed under iftables: the
    table, the direct interfaces and their iftables. An interface skipped as a
    duplicate adds nothing, because its iftable is already listed. -/
theorem mem_flattenInterfaces (hcl : ∀ k, ClosedUnderIfTables ct (ct.ifTableOf k)) :
    ∀ {acc tbl xs : List Nat}, ClosedUnderIfTables ct acc → flattenInterfaces ct acc xs = some tbl →
      ∀ j, j ∈ tbl ↔ j ∈ acc ∨ ∃ k ∈ xs, j = k ∨ j ∈ ct.ifTableOf k
  | acc, tbl, [], _, h, j => by
    rw [flattenInterfaces, Option.some_inj] at h
    simp [h]
  | acc, tbl, x :: xs, hacc, h, j => by
    unfold flattenInterfaces at h
    by_cases hx : ct.isInterface x = true
    · rw [hx, if_neg (by simp)] at h
      by_cases hdup : x ∈ acc
      · rw [if_pos hdup] at h
        rw [mem_flattenInterfaces hcl hacc h j]
        -- the skipped interface and its iftable are in the table already
        constructor
        · rintro (hj | ⟨k, hk, hjk⟩)
          · exact .inl hj
          · exact .inr ⟨k, List.mem_cons_of_mem x hk, hjk⟩
        · rintro (hj | ⟨k, hk, hjk⟩)
          · exact .inl hj
          rcases List.mem_cons.mp hk with rfl | hk
          · rcases hjk with rfl | hj
            · exact .inl hdup
            · exact .inl (hacc k hdup j hj)
          · exact .inr ⟨k, hk, hjk⟩
      · rw [if_neg hdup] at h
        rw [mem_flattenInterfaces hcl (hacc.append hcl x) h j, mem_appendAllNew, List.mem_append,
          List.mem_singleton, List.exists_mem_cons_iff]
        simp only [or_assoc]
    · simp [hx] at h

end Flatten

namespace Linked

variable {ct : ClassTable} (hct : Linked ct)
include hct

theorem edge_lt {i j : Nat} (h : ct.Edge i j) : j < i := by
  rcases h with h | h
  · exact superOf_lt h
  · exact hct.interfaces_lt i j h

theorem transGen_lt {i j : Nat} (h : TransGen ct.Edge i j) : j < i := by
  induction h with
  | single hij => exact hct.edge_lt hij
  | tail _ hbj ih => exact Nat.lt_trans (hct.edge_lt hbj) ih

theorem reflTransGen_le {i j : Nat} (h : ReflTransGen ct.Edge i j) : j ≤ i := by
  rcases reflTransGen_iff_eq_or_transGen.mp h with rfl | h
  · exact Nat.le_refl j
  · exact Nat.le_of_lt (hct.transGen_lt h)

theorem lt_of_mem_ifTable {i j : Nat} (h : j ∈ ct.ifTableOf i) : j < i :=
  hct.transGen_lt ((hct.mem_ifTable i j).mp h).2

theorem closed (k : Nat) : ClosedUnderIfTables ct (ct.ifTableOf k) := by
  intro j hj m hm
  rcases (hct.mem_ifTable k j).mp hj with ⟨-, hkj⟩
  rcases (hct.mem_ifTable j m).mp hm with ⟨hm, hjm⟩
  exact (hct.mem_ifTable k m).mpr ⟨hm, hkj.trans hjm⟩

/-- A path from a linked class is a path in the table with one more class. -/
theorem transGen_push_iff {c : Class} {h : ∀ s, c.super = some s → s < ct.classes.length}
    (hc : ∀ j ∈ c.interfaces, j < ct.classes.length) {i j : Nat} (hi : i < ct.classes.length) :
    TransGen (ct.push c h).Edge i j ↔ TransGen ct.Edge i j := by
  refine (transGen_iff_of_agree ?_ (fun _ _ => hct.edge_lt) (fun a b ha => edge_push_iff ha b) hi)
  intro a b hab
  by_cases ha : a = ct.classes.length
  · subst ha
    rcases (edge_push_self_iff b).mp hab with hb | hb
    · exact h b hb
    · exact hc b hb
  · rcases Nat.lt_or_gt_of_ne ha with ha | ha
    · exact hct.edge_lt ((edge_push_iff ha b).mp hab)
    · exact absurd hab (not_edge_of_le (by simp; omega))

theorem reflTransGen_push_iff {c : Class} {h : ∀ s, c.super = some s → s < ct.classes.length}
    (hc : ∀ j ∈ c.interfaces, j < ct.classes.length) {i j : Nat} (hi : i < ct.classes.length) :
    ReflTransGen (ct.push c h).Edge i j ↔ ReflTransGen ct.Edge i j := by
  rw [reflTransGen_iff_eq_or_transGen, reflTransGen_iff_eq_or_transGen,
    hct.transGen_push_iff hc hi]

end Linked

theorem linkClass_eq_some {ct ct' : ClassTable} {klass : LoadedClass}
    (h : linkClass ct klass = some ct') :
    ∃ (hsuper : linkSuperClass ct klass = true) (tbl : List Nat),
      linkInterfaceMethods ct klass = some tbl ∧
        ct' = ct.push ⟨klass, tbl⟩ (super_lt_of_linkSuperClass hsuper) := by
  unfold linkClass at h
  split at h
  · rename_i hsuper
    rcases Option.map_eq_some_iff.mp h with ⟨tbl, htbl, rfl⟩
    exact ⟨hsuper, tbl, htbl, rfl⟩
  · cases h

theorem interfaces_lt_length {ct : ClassTable} {klass : LoadedClass} {tbl : List Nat}
    (htbl : linkInterfaceMethods ct klass = some tbl) :
    ∀ j ∈ klass.interfaces, j < ct.classes.length :=
  fun j hj => lt_of_isInterface (isInterface_of_flattenInterfaces htbl j hj)

/-! ### One more class keeps the invariant

The new class's iftable, built from tables that `Linked` describes, lists
what the new class reaches; the classes before it have the same edges as
before, so their iftables still list what they reach. -/

section LinkClass

variable {ct : ClassTable} {klass : LoadedClass} {tbl : List Nat} (hct : Linked ct)
  (hsuper : linkSuperClass ct klass = true) (htbl : linkInterfaceMethods ct klass = some tbl)
include hct hsuper htbl

/-- The iftable built for a class lists the interfaces reachable from its
    superclass and its direct interfaces. -/
theorem Linked.mem_linkInterfaceMethods (j : Nat) :
    j ∈ tbl ↔ ct.isInterface j = true ∧
      ∃ m, (klass.super = some m ∨ m ∈ klass.interfaces) ∧ ReflTransGen ct.Edge m j := by
  have hsuperTbl : ClosedUnderIfTables ct ((klass.super.map ct.ifTableOf).getD []) := by
    cases klass.super with
    | none => simp [ClosedUnderIfTables]
    | some s => exact hct.closed s
  rw [mem_flattenInterfaces hct.closed hsuperTbl htbl j]
  constructor
  · rintro (hj | ⟨k, hk, rfl | hj⟩)
    · cases hs : klass.super with
      | none => simp [hs] at hj
      | some s =>
        rw [hs, Option.map_some, Option.getD_some] at hj
        rcases (hct.mem_ifTable s j).mp hj with ⟨hjI, hsj⟩
        exact ⟨hjI, s, .inl rfl, hsj.to_reflTransGen⟩
    · exact ⟨isInterface_of_flattenInterfaces htbl j hk, j, .inr hk, .refl⟩
    · rcases (hct.mem_ifTable k j).mp hj with ⟨hjI, hkj⟩
      exact ⟨hjI, k, .inr hk, hkj.to_reflTransGen⟩
  · rintro ⟨hjI, m, hm, hmj⟩
    rcases reflTransGen_iff_eq_or_transGen.mp hmj with rfl | hmj
    · rcases hm with hm | hm
      -- a superclass is not an interface
      · rw [(linkSuperClass_some hsuper hm).2] at hjI
        exact absurd hjI Bool.false_ne_true
      · exact .inr ⟨j, hm, .inl rfl⟩
    · have hj := (hct.mem_ifTable m j).mpr ⟨hjI, hmj⟩
      rcases hm with hm | hm
      · exact .inl (by rw [hm, Option.map_some, Option.getD_some]; exact hj)
      · exact .inr ⟨m, hm, .inr hj⟩

theorem Linked.mem_ifTable_push_self (j : Nat) :
    j ∈ tbl ↔ (ct.push ⟨klass, tbl⟩ (super_lt_of_linkSuperClass hsuper)).isInterface j = true ∧
      TransGen (ct.push ⟨klass, tbl⟩ (super_lt_of_linkSuperClass hsuper)).Edge
        ct.classes.length j := by
  have hm_lt : ∀ m, klass.super = some m ∨ m ∈ klass.interfaces → m < ct.classes.length := by
    rintro m (hm | hm)
    · exact super_lt_of_linkSuperClass hsuper m hm
    · exact interfaces_lt_length htbl m hm
  rw [hct.mem_linkInterfaceMethods hsuper htbl j, TransGen.head'_iff]
  constructor
  · rintro ⟨hjI, m, hm, hmj⟩
    have hj : j < ct.classes.length :=
      Nat.lt_of_le_of_lt (hct.reflTransGen_le hmj) (hm_lt m hm)
    refine ⟨?_, m, (edge_push_self_iff m).mpr hm,
      (hct.reflTransGen_push_iff (interfaces_lt_length htbl) (hm_lt m hm)).mpr hmj⟩
    rw [isInterface_push, if_neg (Nat.ne_of_lt hj)]
    exact hjI
  · rintro ⟨hjI, m, hm, hmj⟩
    have hm := (edge_push_self_iff m).mp hm
    have hmj := (hct.reflTransGen_push_iff (interfaces_lt_length htbl)
      (hm_lt m hm)).mp hmj
    have hj : j < ct.classes.length :=
      Nat.lt_of_le_of_lt (hct.reflTransGen_le hmj) (hm_lt m hm)
    rw [isInterface_push, if_neg (Nat.ne_of_lt hj)] at hjI
    exact ⟨hjI, m, hm, hmj⟩

theorem Linked.push : Linked (ct.push ⟨klass, tbl⟩ (super_lt_of_linkSuperClass hsuper)) where
  super_isSome i hi0 hi := by
    rw [superOf_push]
    split_ifs with hin
    · cases hs : klass.super with
      | none =>
        have := linkSuperClass_none hsuper hs
        simp [this] at hin
        omega
      | some s => rfl
    · exact hct.super_isSome i hi0 (by simp at hi; omega)
  super_not_interface i s hs := by
    rw [superOf_push] at hs
    split_ifs at hs with hin
    · rw [isInterface_push, if_neg (Nat.ne_of_lt (linkSuperClass_some hsuper hs).1)]
      exact (linkSuperClass_some hsuper hs).2
    · have hs_lt : s < ct.classes.length := superOf_lt_length hs
      rw [isInterface_push, if_neg (Nat.ne_of_lt hs_lt)]
      exact hct.super_not_interface i s hs
  interfaces_lt i j hj := by
    rw [interfacesOf_push] at hj
    split_ifs at hj with hin
    · exact hin ▸ interfaces_lt_length htbl j hj
    · exact hct.interfaces_lt i j hj
  nodup i := by
    rw [ifTableOf_push]
    split_ifs
    · refine nodup_flattenInterfaces ?_ htbl
      cases klass.super with
      | none => exact List.nodup_nil
      | some s => exact hct.nodup s
    · exact hct.nodup i
  mem_ifTable i j := by
    rw [ifTableOf_push]
    rcases Nat.lt_trichotomy i ct.classes.length with hi | rfl | hi
    · -- a class linked before: its edges and what it reaches are unchanged
      rw [if_neg (Nat.ne_of_lt hi), isInterface_push,
        hct.transGen_push_iff (interfaces_lt_length htbl) hi]
      constructor
      · intro hj
        rw [if_neg (Nat.ne_of_lt (Nat.lt_trans (hct.lt_of_mem_ifTable hj) hi))]
        exact (hct.mem_ifTable i j).mp hj
      · rintro ⟨hjI, hij⟩
        rw [if_neg (Nat.ne_of_lt (Nat.lt_trans (hct.transGen_lt hij) hi))] at hjI
        exact (hct.mem_ifTable i j).mpr ⟨hjI, hij⟩
    · rw [if_pos rfl]
      exact hct.mem_ifTable_push_self hsuper htbl j
    · -- past the table nothing is listed and nothing is reached
      rw [if_neg (Nat.ne_of_gt hi), ifTableOf, List.getElem?_eq_none (Nat.le_of_lt hi)]
      simp only [Option.map_none, Option.getD_none, List.not_mem_nil, false_iff, not_and]
      exact fun _ => not_transGen_of_le (by simp; omega)

end LinkClass

theorem linked_empty : Linked ClassTable.empty where
  super_isSome i hi hlt := by simp [ClassTable.empty] at hlt
  super_not_interface i s h := by simp [ClassTable.empty, superOf] at h
  interfaces_lt i j h := by simp [ClassTable.empty, interfacesOf] at h
  nodup i := by simp [ClassTable.empty, ifTableOf]
  mem_ifTable i j := by
    simp only [ClassTable.empty, ifTableOf, List.getElem?_nil, Option.map_none,
      Option.getD_none, List.not_mem_nil, false_iff, not_and]
    exact fun _ => not_transGen_of_le (by simp)

theorem Linked.linkClass {ct ct' : ClassTable} {klass : LoadedClass} (hct : Linked ct)
    (h : linkClass ct klass = some ct') : Linked ct' := by
  rcases linkClass_eq_some h with ⟨hsuper, tbl, htbl, rfl⟩
  exact hct.push hsuper htbl

/-- Every table that linking a hierarchy produces is linked. -/
theorem linked_linkAll {classes : List LoadedClass} {ct : ClassTable}
    (h : linkAll classes = some ct) : Linked ct := by
  unfold linkAll at h
  -- the fold keeps the invariant from the empty table on
  suffices hfold : ∀ (classes : List LoadedClass) (ct₀ : ClassTable), Linked ct₀ →
      classes.foldlM linkClass ct₀ = some ct → Linked ct from hfold classes _ linked_empty h
  intro classes
  induction classes with
  | nil =>
    intro ct₀ hct₀ h
    rw [List.foldlM_nil] at h
    exact Option.some_inj.mp h ▸ hct₀
  | cons klass classes ih =>
    intro ct₀ hct₀ h
    rw [List.foldlM_cons] at h
    rcases Option.bind_eq_some_iff.mp h with ⟨ct₁, h₁, hrest⟩
    exact ih ct₁ (hct₀.linkClass h₁) hrest


/-- A small hierarchy: `java.lang.Object`; `java.lang.Cloneable` and
    `java.io.Serializable`; an interface extending `Serializable`; and a class
    implementing that interface and `Cloneable`. -/
def sampleClasses : List LoadedClass :=
  [⟨false, none, []⟩, ⟨true, some 0, []⟩, ⟨true, some 0, []⟩, ⟨true, some 0, [2]⟩,
    ⟨false, some 0, [3, 1]⟩]

example : (linkAll sampleClasses).map (fun ct => ct.ifTableOf 4) = some [3, 2, 1] := by decide

end Mirror

end ArtRuntime
