import Mathlib.Data.Finset.Card
import ArtRuntime.Core.Reach
import ArtRuntime.Core.Links

/-!
# The pending-reference lists

While marking, the collector gathers the `java.lang.ref.Reference` objects it
meets on lists of its own, one for each kind, and then takes them off one at
a time. A list is a cycle threaded through the references' own `pendingNext`
field, and the list variable `*list` points at one element of it:

    void Heap::EnqueuePendingReference(Object* ref, Object** list) {
      if (*list == NULL) {
        ref->pendingNext = ref; *list = ref;          // a one-element cycle
      } else {
        Object* head = (*list)->pendingNext;
        ref->pendingNext = head; (*list)->pendingNext = ref;
      }
    }

    Object* Heap::DequeuePendingReference(Object** list) {
      Object* head = (*list)->pendingNext;
      if (*list == head) { ref = *list; *list = NULL; }
      else { next = head->pendingNext; (*list)->pendingNext = next; ref = head; }
      ref->pendingNext = NULL;
      return ref;
    }

Both insert and remove right after `*list`. IsEnqueued(ref) reads whether
`pendingNext` is set; the marker enqueues a reference only when it is not
(`!IsEnqueued(obj)`), and the reference processing dequeues only while
`*list` is set.

What the lists are for is an abstract model: each list holds a set of
references, an enqueue adds one that no list holds, a dequeue takes out any
one of its list (`pendingSpec`). The heap refines it (`Rep.run`): through
every run of enqueues and dequeues, the references each list holds, in the
order `pendingNext` visits them from `*list`, are a ghost list `q` that the
heap threads as a cycle (`Cyclic`). Each operation changes one list and the
`pendingNext` of at most three references, so `Cyclic.update` checks
everything else once.

## Main definitions

* `PendingLists`: The `pendingNext` fields and the list variables.
* `PendingLists.enqueuePendingReference`, `PendingLists.dequeuePendingReference`,
  `PendingLists.isEnqueued`: The three functions of the heap.
* `pendingSystem`: Enqueues and dequeues as the collector makes them, from
  empty lists.
* `pendingSpec`: The lists as sets of references.
* `Cyclic`: The heap threads the ghost lists as cycles.
* `Rep`: The heap represents the abstract lists.

## Theorems

* `Cyclic.update`: An operation that keeps the cycle of its list and what it
  says of the references it changes keeps the other lists.
* `Cyclic.enqueue`, `Cyclic.dequeue`: Each operation keeps the cycles.
* `Rep.step`, `Rep.run`: Every run of the heap is a run of the abstract lists.
* `Rep.drain_exists`, `Rep.drain_returns`: Dequeuing until the list is empty
  ends, and returns each reference of the list once.
* `pendingReferences_cyclic`: In every reachable state the lists are cycles
  through exactly the references enqueued and not yet dequeued.
-/

namespace ArtRuntime

namespace Gc

open TransitionSystem Links

variable {ρ κ : Type} [DecidableEq ρ] [DecidableEq κ]

/-! ### The model -/

/-- The fields the pending lists live in: the `pendingNext` field of each
    reference, `none` for NULL, and the list variable `*list` of each list. -/
structure PendingLists (ρ κ : Type) where
  pendingNext : ρ → Option ρ
  list : κ → Option ρ

namespace PendingLists

/-- Heap::IsEnqueued(ref). -/
def isEnqueued (s : PendingLists ρ κ) (ref : ρ) : Bool :=
  (s.pendingNext ref).isSome

/-- Heap::EnqueuePendingReference(ref, list). -/
def enqueuePendingReference (s : PendingLists ρ κ) (ref : ρ) (l : κ) : PendingLists ρ κ :=
  match s.list l with
  | none =>
    -- the one-element cycle `ref.pendingNext = ref`
    { pendingNext := Function.update s.pendingNext ref (some ref),
      list := Function.update s.list l (some ref) }
  | some r =>
    let head := s.pendingNext r
    { s with pendingNext := Function.update (Function.update s.pendingNext ref head) r (some ref) }

/-- Heap::DequeuePendingReference(list): the reference it returns and the lists
    it leaves; `none` where the source reads through a NULL `*list` or `head`. -/
def dequeuePendingReference (s : PendingLists ρ κ) (l : κ) : Option (ρ × PendingLists ρ κ) :=
  match s.list l with
  | none => none
  | some r =>
    match s.pendingNext r with
    | none => none
    | some head =>
      if r = head then
        some (r, { pendingNext := Function.update s.pendingNext r none,
                   list := Function.update s.list l none })
      else
        let next := s.pendingNext head
        some (head, { s with
          pendingNext := Function.update (Function.update s.pendingNext r next) head none })

/-- Every list empty and no reference enqueued. -/
def IsInitial (s : PendingLists ρ κ) : Prop :=
  (∀ l, s.list l = none) ∧ ∀ r, s.pendingNext r = none

end PendingLists

/-- An operation on the lists: an enqueue of a reference on a list, or a
    dequeue from a list together with the reference it returned. -/
inductive PendingOp (ρ κ : Type)
  | enqueue (ref : ρ) (l : κ)
  | dequeue (l : κ) (ref : ρ)

open PendingLists

/-- One operation as the collector makes it: an enqueue of a reference whose
    `pendingNext` is NULL, a dequeue from a list that is not NULL. -/
def pendingStep : PendingOp ρ κ → PendingLists ρ κ → Option (PendingLists ρ κ)
  | .enqueue ref l, s => if s.isEnqueued ref = false then some (s.enqueuePendingReference ref l) else none
  | .dequeue l ref, s =>
    match s.dequeuePendingReference l with
    | some (r, s') => if r = ref then some s' else none
    | none => none

/-- Enqueues and dequeues in any order, from empty lists. -/
def pendingSystem : System (PendingLists ρ κ) (PendingOp ρ κ) :=
  System.ofFun IsInitial pendingStep

/-! ### The abstract lists -/

/-- What the lists are for: each holds a set of references; an enqueue adds
    a reference that no list holds, a dequeue takes out and returns any
    reference its list holds. -/
def pendingSpec : System (κ → Finset ρ) (PendingOp ρ κ) where
  init A := ∀ l, A l = ∅
  step op A A' :=
    match op with
    | .enqueue ref l => (∀ l', ref ∉ A l') ∧ A' = Function.update A l (insert ref (A l))
    | .dequeue l ref => ref ∈ A l ∧ A' = Function.update A l ((A l).erase ref)

/-! ### The cycles -/

/-- Where EnqueuePendingReference puts `ref` in the order of a list: right
    after `*list`. -/
def insertAfterHead (ref : ρ) : List ρ → List ρ
  | [] => [ref]
  | r :: rs => r :: ref :: rs

/-- The list order with `ref` after the head is a reordering of `ref` in
    front. -/
theorem perm_insertAfterHead (ref : ρ) (rs : List ρ) : (insertAfterHead ref rs).Perm (ref :: rs) := by
  cases rs with
  | nil => exact List.Perm.refl _
  | cons r rs => exact List.Perm.swap ref r rs

/-- The heap threads the ghost lists `q` as cycles: `*list` is the first
    element of its list, the `pendingNext` of each element is the next one
    and that of the last the first, no reference is twice in the lists, and
    exactly the references in no list have a NULL `pendingNext`. -/
structure Cyclic (s : PendingLists ρ κ) (q : κ → List ρ) : Prop where
  list_eq : ∀ l, s.list l = (q l).head?
  cycle : ∀ l r rs, q l = r :: rs → (r :: rs ++ [r]).IsChain fun a b => s.pendingNext a = some b
  nodup : ∀ l, (q l).Nodup
  disjoint : ∀ l l' r, r ∈ q l → r ∈ q l' → l = l'
  null_iff : ∀ r, s.pendingNext r = none ↔ ∀ l, r ∉ q l

namespace Cyclic

variable {s s' : PendingLists ρ κ} {q : κ → List ρ}

theorem initial (h : s.IsInitial) : Cyclic s fun _ => [] where
  list_eq l := h.1 l
  cycle _ _ _ h := nomatch h
  nodup _ := List.nodup_nil
  disjoint _ _ _ h := nomatch h
  null_iff r := ⟨fun _ _ h => (nomatch h), fun _ => h.2 r⟩

/-- The `pendingNext` of the first element of a list is the second element,
    or the first itself when it is alone. -/
theorem next_head (hinv : Cyclic s q) {l : κ} {r : ρ} {rs : List ρ} (hq : q l = r :: rs) :
    s.pendingNext r = some (rs.headD r) := by
  exact (isChain_link_cons_iff.1 (hinv.cycle l r rs hq)).1

/-- A reference of no list has a NULL `pendingNext`; one of a list has not. -/
theorem mem_of_next_ne_none (hinv : Cyclic s q) {r : ρ} (h : s.pendingNext r ≠ none) :
    ∃ l, r ∈ q l := by
  by_contra hno
  exact h ((hinv.null_iff r).2 fun l hl => hno ⟨l, hl⟩)

/-- An operation that replaces the list `l` by `xs`, changes the list
    variable of `l` only, and changes the `pendingNext` of references of the
    old or the new list only, keeps the cycles if it threads `xs` as a cycle,
    keeps it free of duplicates, takes its new references from no other list,
    and clears the `pendingNext` of the references it takes out. -/
theorem update (hinv : Cyclic s q) {l : κ} {xs : List ρ}
    (hlist : ∀ l', l' ≠ l → s'.list l' = s.list l') (hhead : s'.list l = xs.head?)
    (hnext : ∀ x, x ∉ q l → x ∉ xs → s'.pendingNext x = s.pendingNext x)
    (hcycle : ∀ r rs, xs = r :: rs → (r :: rs ++ [r]).IsChain fun a b => s'.pendingNext a = some b)
    (hnodup : xs.Nodup) (hnew : ∀ x ∈ xs, x ∈ q l ∨ ∀ l', x ∉ q l')
    (hclear : ∀ x ∈ q l, x ∉ xs → s'.pendingNext x = none) :
    Cyclic s' (Function.update q l xs) := by
  -- a reference of the old or the new list `l` is in no other list
  have hother : ∀ x l', l' ≠ l → x ∈ q l ∨ x ∈ xs → x ∉ q l' := by
    intro x l' hl' hx hx'
    rcases hx with hx | hx
    · exact hl' (hinv.disjoint l' l x hx' hx)
    · rcases hnew x hx with hx | hno
      · exact hl' (hinv.disjoint l' l x hx' hx)
      · exact hno l' hx'
  -- the references of `xs` are linked, those taken out are cleared
  have hnull : ∀ x, x ∈ q l ∨ x ∈ xs → (s'.pendingNext x = none ↔ x ∉ xs) := by
    intro x hx
    constructor
    · intro hx' hxs
      obtain ⟨r, rs, hrs⟩ := List.exists_cons_of_ne_nil (List.ne_nil_of_mem hxs)
      exact link_ne_none_of_isChain (hcycle r rs hrs) (hrs ▸ hxs) hx'
    · intro hxs
      exact hclear x (hx.resolve_right hxs) hxs
  refine ⟨fun l' => ?_, fun l' r rs hq => ?_, fun l' => ?_, fun l₁ l₂ x h₁ h₂ => ?_, fun x => ?_⟩
  · by_cases hl : l' = l
    · subst hl
      rw [Function.update_self, hhead]
    · rw [Function.update_of_ne hl, hlist l' hl, hinv.list_eq l']
  · by_cases hl : l' = l
    · subst hl
      rw [Function.update_self] at hq
      exact hcycle r rs hq
    · rw [Function.update_of_ne hl] at hq
      -- the other lists keep the links of their elements
      refine isChain_link_congr (hinv.cycle l' r rs hq) fun x hx => hnext x ?_ ?_
      · intro hxl
        exact hl (hinv.disjoint l' l x (hq ▸ hx) hxl)
      · intro hxs
        exact hother x l' hl (.inr hxs) (hq ▸ hx)
  · by_cases hl : l' = l
    · subst hl
      rw [Function.update_self]
      exact hnodup
    · rw [Function.update_of_ne hl]
      exact hinv.nodup l'
  · by_cases hl₁ : l₁ = l <;> by_cases hl₂ : l₂ = l
    · rw [hl₁, hl₂]
    · subst hl₁
      rw [Function.update_self] at h₁
      rw [Function.update_of_ne hl₂] at h₂
      exact absurd h₂ (hother x l₂ hl₂ (.inr h₁))
    · subst hl₂
      rw [Function.update_self] at h₂
      rw [Function.update_of_ne hl₁] at h₁
      exact absurd h₁ (hother x l₁ hl₁ (.inr h₂))
    · rw [Function.update_of_ne hl₁] at h₁
      rw [Function.update_of_ne hl₂] at h₂
      exact hinv.disjoint l₁ l₂ x h₁ h₂
  · -- the lists other than `l` hold the same references as before
    have hsame : ∀ l', l' ≠ l → (x ∈ Function.update q l xs l' ↔ x ∈ q l') := fun l' hl' => by
      rw [Function.update_of_ne hl']
    by_cases hx : x ∈ q l ∨ x ∈ xs
    · rw [hnull x hx]
      constructor
      · intro hxs l' hl'
        by_cases hl : l' = l
        · subst hl
          rw [Function.update_self] at hl'
          exact hxs hl'
        · exact hother x l' hl hx ((hsame l' hl).1 hl')
      · intro hno hxs
        exact hno l (by rw [Function.update_self]; exact hxs)
    · rw [not_or] at hx
      rw [hnext x hx.1 hx.2, hinv.null_iff x]
      refine forall_congr' fun l' => ?_
      by_cases hl : l' = l
      · subst hl
        rw [Function.update_self]
        exact ⟨fun _ => hx.2, fun _ => hx.1⟩
      · rw [hsame l' hl]

/-- EnqueuePendingReference of a reference with a NULL `pendingNext` keeps
    the cycles, with the reference right after `*list`. -/
theorem enqueue (hinv : Cyclic s q) {ref : ρ} {l : κ} (hnull : s.pendingNext ref = none) :
    Cyclic (s.enqueuePendingReference ref l) (Function.update q l (insertAfterHead ref (q l))) := by
  have hfree : ∀ l', ref ∉ q l' := (hinv.null_iff ref).1 hnull
  have hperm := perm_insertAfterHead ref (q l)
  -- what holds of both branches: `ref` joins the list, and was in none
  have hnodup : (insertAfterHead ref (q l)).Nodup :=
    hperm.nodup_iff.2 (List.nodup_cons.2 ⟨hfree l, hinv.nodup l⟩)
  have hnew : ∀ x ∈ insertAfterHead ref (q l), x ∈ q l ∨ ∀ l', x ∉ q l' := by
    intro x hx
    rcases List.mem_cons.1 (hperm.mem_iff.1 hx) with rfl | hx
    · exact .inr hfree
    · exact .inl hx
  have hsub : ∀ x ∈ q l, x ∈ insertAfterHead ref (q l) := fun x hx =>
    hperm.mem_iff.2 (List.mem_cons_of_mem ref hx)
  have hlist := hinv.list_eq l
  unfold enqueuePendingReference
  cases hl : s.list l with
  | none =>
    -- the list was empty: `ref` becomes a cycle of one
    have hq : q l = [] := List.head?_eq_none_iff.1 (hl ▸ hlist).symm
    refine hinv.update (fun l' hl' => Function.update_of_ne hl' _ _) (by rw [hq]; exact Function.update_self ..)
      (fun x _ hx => Function.update_of_ne (fun h : x = ref => hx (hperm.mem_iff.2 (h ▸ List.mem_cons_self))) _ _)
      (fun r rs hrs => ?_) hnodup hnew (fun x hx hx' => absurd (hsub x hx) hx')
    rw [hq] at hrs
    cases hrs
    exact List.isChain_pair.2 (Function.update_self ..)
  | some r =>
    -- `ref` goes between `*list` and the element after it
    obtain ⟨rs, hq⟩ : ∃ rs, q l = r :: rs := by
      cases hq : q l with
      | nil => rw [hq, hl] at hlist; cases hlist
      | cons r' rs => rw [hq, hl, List.head?_cons, Option.some_inj] at hlist; exact ⟨rs, hlist ▸ rfl⟩
    have hc := hinv.cycle l r rs hq
    have hr : r ∈ q l := hq ▸ List.mem_cons_self
    have hrefr : ref ≠ r := fun h => hfree l (h ▸ hr)
    dsimp only
    refine hinv.update (fun _ _ => rfl) (by rw [hq, hl]; rfl) (fun x hx hx' => ?_)
      (fun r' rs' hrs => ?_) hnodup hnew (fun x hx hx' => absurd (hsub x hx) hx')
    · dsimp only
      rw [Function.update_of_ne (fun h : x = r => hx (h ▸ hr)),
        Function.update_of_ne (fun h : x = ref => hx' (hperm.mem_iff.2 (h ▸ List.mem_cons_self)))]
    · rw [hq] at hrs
      obtain ⟨rfl, rfl⟩ := List.cons.inj hrs
      rw [isChain_link_cons_iff, isChain_link_cons_iff]
      dsimp only
      refine ⟨Function.update_self .., ?_, ?_⟩
      · -- `ref` links to what `*list` linked to
        rw [Function.update_of_ne hrefr, Function.update_self]
        exact (isChain_link_cons_iff.1 hc).1
      · refine isChain_link_congr (isChain_link_cons_iff.1 hc).2 fun x hx => ?_
        have hxq : x ∈ q l := hq ▸ List.mem_cons_of_mem r hx
        have hxr : x ≠ r := fun h => (List.nodup_cons.1 (hq ▸ hinv.nodup l)).1 (h ▸ hx)
        rw [Function.update_of_ne hxr, Function.update_of_ne (fun h : x = ref => hfree l (h ▸ hxq))]

/-- What a DequeuePendingReference can do: on a list of one reference it
    returns it and empties the list; on a longer one it returns the element
    after `*list` and links `*list` past it. Either way the returned
    reference's `pendingNext` is cleared. -/
theorem dequeue_cases (hinv : Cyclic s q) {l : κ} {ref : ρ}
    (h : s.dequeuePendingReference l = some (ref, s')) :
    ∃ r, s.list l = some r ∧
      ((q l = [r] ∧ ref = r ∧
          s' = ⟨Function.update s.pendingNext r none, Function.update s.list l none⟩) ∨
        ∃ rs, q l = r :: ref :: rs ∧ ref ≠ r ∧
          s' = { s with pendingNext :=
            Function.update (Function.update s.pendingNext r (s.pendingNext ref)) ref none }) := by
  have hlist := hinv.list_eq l
  unfold dequeuePendingReference at h
  cases hq : q l with
  | nil =>
    rw [hq, List.head?_nil] at hlist
    rw [hlist] at h
    cases h
  | cons r rs =>
    rw [hq, List.head?_cons] at hlist
    have hnodup := hinv.nodup l
    rw [hq] at hnodup
    rw [hlist] at h
    dsimp only at h
    rw [hinv.next_head hq] at h
    dsimp only at h
    refine ⟨r, hlist, ?_⟩
    cases rs with
    | nil =>
      -- `*list == head`: the list had one element
      rw [List.headD_nil, if_pos rfl, Option.some_inj, Prod.mk.injEq] at h
      obtain ⟨rfl, rfl⟩ := h
      exact .inl ⟨rfl, rfl, rfl⟩
    | cons r₁ rs =>
      have hne : r ≠ r₁ := fun h => (List.nodup_cons.1 hnodup).1 (h ▸ List.mem_cons_self)
      rw [List.headD_cons, if_neg hne, Option.some_inj, Prod.mk.injEq] at h
      obtain ⟨rfl, rfl⟩ := h
      exact .inr ⟨rs, rfl, Ne.symm hne, rfl⟩

/-- DequeuePendingReference returns a reference of the list, clears its
    `pendingNext`, and keeps the cycles with the reference taken out. -/
theorem dequeue (hinv : Cyclic s q) {l : κ} {ref : ρ}
    (h : s.dequeuePendingReference l = some (ref, s')) :
    ref ∈ q l ∧ s'.pendingNext ref = none ∧ Cyclic s' (Function.update q l ((q l).erase ref)) := by
  -- what holds of both branches: the list loses `ref`
  have hnodup : ((q l).erase ref).Nodup := (hinv.nodup l).erase ref
  have hnew : ∀ x ∈ (q l).erase ref, x ∈ q l ∨ ∀ l', x ∉ q l' := fun x hx =>
    .inl (List.mem_of_mem_erase hx)
  obtain ⟨r, hlist, ⟨hq, rfl, rfl⟩ | ⟨rs, hq, hne, rfl⟩⟩ := hinv.dequeue_cases h
  · -- the list had one element and is now empty
    refine ⟨by rw [hq]; exact List.mem_singleton_self ref, Function.update_self .., ?_⟩
    have herase : (q l).erase ref = [] := by rw [hq, List.erase_cons_head]
    refine hinv.update (fun l' hl' => Function.update_of_ne hl' _ _)
      (by rw [herase]; exact Function.update_self ..)
      (fun x hx _ => Function.update_of_ne (fun h => hx (by rw [hq, h]; exact List.mem_singleton_self _)) _ _)
      (fun _ _ h => by rw [herase] at h; cases h) hnodup hnew (fun x hx _ => ?_)
    rw [hq, List.mem_singleton] at hx
    rw [hx]
    exact Function.update_self ..
  · -- the element after `*list` leaves; `*list` links past it
    have hnodup' := hinv.nodup l
    rw [hq] at hnodup'
    have hr : r ∉ ref :: rs := (List.nodup_cons.1 hnodup').1
    have hrefrs : ref ∉ rs := (List.nodup_cons.1 (List.nodup_cons.1 hnodup').2).1
    have herase : (q l).erase ref = r :: rs := by
      rw [hq, List.erase_cons_tail (by simpa using Ne.symm hne), List.erase_cons_head]
    -- the links of `*list` and of `ref` before the dequeue
    have hc := hinv.cycle l r (ref :: rs) hq
    rw [isChain_link_cons_iff, isChain_link_cons_iff] at hc
    refine ⟨by rw [hq]; exact List.mem_cons_of_mem r List.mem_cons_self, Function.update_self .., ?_⟩
    refine hinv.update (fun _ _ => rfl) (by rw [herase, hlist]; rfl) (fun x hx _ => ?_)
      (fun r' rs' hrs => ?_) hnodup hnew (fun x hx hx' => ?_)
    · rw [hq, List.mem_cons, List.mem_cons, not_or, not_or] at hx
      dsimp only
      rw [Function.update_of_ne hx.2.1, Function.update_of_ne hx.1]
    · rw [herase] at hrs
      obtain ⟨rfl, rfl⟩ := List.cons.inj hrs
      rw [isChain_link_cons_iff]
      dsimp only
      refine ⟨?_, ?_⟩
      · rw [Function.update_of_ne hne.symm, Function.update_self]
        exact hc.2.1
      · refine isChain_link_congr hc.2.2 fun x hx => ?_
        rw [Function.update_of_ne (fun h : x = ref => hrefrs (h ▸ hx)),
          Function.update_of_ne (fun h : x = r => hr (List.mem_cons_of_mem ref (h ▸ hx)))]
    · -- only `ref` is taken out, and its link is cleared
      have hxref : x = ref := by
        rw [herase] at hx'
        rw [hq] at hx
        simp only [List.mem_cons] at hx hx'
        tauto
      rw [hxref]
      exact Function.update_self ..

/-- A list that holds a reference can be dequeued from. -/
theorem dequeue_isSome (hinv : Cyclic s q) {l : κ} (hne : q l ≠ []) :
    ∃ ref s', s.dequeuePendingReference l = some (ref, s') := by
  obtain ⟨r, rs, hq⟩ := List.exists_cons_of_ne_nil hne
  have hlist := hinv.list_eq l
  rw [hq, List.head?_cons] at hlist
  unfold dequeuePendingReference
  rw [hlist]
  dsimp only
  rw [hinv.next_head hq]
  dsimp only
  split
  · exact ⟨_, _, rfl⟩
  · exact ⟨_, _, rfl⟩

end Cyclic

/-! ### Refinement -/

/-- The heap represents the abstract lists `A`: it threads as cycles ghost
    lists holding the references of `A`. -/
def Rep (s : PendingLists ρ κ) (A : κ → Finset ρ) : Prop :=
  ∃ q, Cyclic s q ∧ ∀ l x, x ∈ q l ↔ x ∈ A l

namespace Rep

variable {s s' : PendingLists ρ κ} {A : κ → Finset ρ}

theorem initial (h : s.IsInitial) : Rep s fun _ => ∅ :=
  ⟨fun _ => [], Cyclic.initial h, fun _ _ => by simp⟩

/-- A step of the heap is a step of the abstract lists with the same
    operation, and the heap after it represents the lists after it. -/
theorem step (hrep : Rep s A) {op : PendingOp ρ κ} (h : pendingSystem.step op s s') :
    ∃ A', pendingSpec.step op A A' ∧ Rep s' A' := by
  obtain ⟨q, hinv, hmem⟩ := hrep
  cases op with
  | enqueue ref l =>
    change pendingStep (.enqueue ref l) s = some s' at h
    rw [pendingStep] at h
    split at h
    · next hfree =>
      cases h
      have hnull : s.pendingNext ref = none := by
        simpa [isEnqueued] using hfree
      refine ⟨Function.update A l (insert ref (A l)),
        ⟨fun l' href => (hinv.null_iff ref).1 hnull l' ((hmem l' ref).2 href), rfl⟩,
        _, hinv.enqueue hnull, fun l' x => ?_⟩
      by_cases hl : l' = l
      · subst hl
        rw [Function.update_self, Function.update_self, (perm_insertAfterHead ref (q l')).mem_iff,
          List.mem_cons, Finset.mem_insert, hmem]
      · rw [Function.update_of_ne hl, Function.update_of_ne hl, hmem]
    · cases h
  | dequeue l ref =>
    change pendingStep (.dequeue l ref) s = some s' at h
    rw [pendingStep] at h
    split at h
    · next r s₁ hdeq =>
      split at h
      · next hr =>
        cases h
        subst hr
        obtain ⟨href, -, hinv'⟩ := hinv.dequeue hdeq
        refine ⟨Function.update A l ((A l).erase r), ⟨(hmem l r).1 href, rfl⟩, _, hinv', fun l' x => ?_⟩
        by_cases hl : l' = l
        · subst hl
          rw [Function.update_self, Function.update_self, (hinv.nodup l').mem_erase_iff,
            Finset.mem_erase, hmem]
        · rw [Function.update_of_ne hl, Function.update_of_ne hl, hmem]
      · cases h
    · cases h

/-- Every run of the heap is a run of the abstract lists with the same
    operations. -/
theorem run (hrep : Rep s A) {ops : List (PendingOp ρ κ)} (h : pendingSystem.Run s ops s') :
    ∃ A', pendingSpec.Run A ops A' ∧ Rep s' A' := by
  induction h generalizing A with
  | nil => exact ⟨A, .nil A, hrep⟩
  | cons hstep _ ih =>
    obtain ⟨A₁, hA₁, hrep₁⟩ := hrep.step hstep
    obtain ⟨A', hA', hrep'⟩ := ih hrep₁
    exact ⟨A', .cons hA₁ hA', hrep'⟩

/-- `*list` is NULL exactly when its list holds nothing. -/
theorem list_eq_none_iff (hrep : Rep s A) (l : κ) : s.list l = none ↔ A l = ∅ := by
  obtain ⟨q, hinv, hmem⟩ := hrep
  rw [hinv.list_eq l, List.head?_eq_none_iff, Finset.eq_empty_iff_forall_notMem,
    List.eq_nil_iff_forall_not_mem]
  exact forall_congr' fun x => not_congr (hmem l x)

/-- IsEnqueued holds exactly for the references some list holds. -/
theorem isEnqueued_iff (hrep : Rep s A) (r : ρ) : s.isEnqueued r = true ↔ ∃ l, r ∈ A l := by
  obtain ⟨q, hinv, hmem⟩ := hrep
  rw [isEnqueued, Option.isSome_iff_ne_none, Ne, hinv.null_iff, not_forall]
  exact exists_congr fun l => by rw [not_not, hmem]

/-- Following `pendingNext` from `*list` visits the references of the list,
    each once, and then comes back to `*list`. -/
theorem cycle (hrep : Rep s A) {l : κ} {r : ρ} (hlist : s.list l = some r) :
    ∃ order : List ρ, order.Nodup ∧ (∀ x, x ∈ order ↔ x ∈ A l) ∧ order.head? = some r ∧
      (∀ (i : Nat) (hi : i < order.length), follow s.pendingNext r i = some order[i]) ∧
      follow s.pendingNext r order.length = some r := by
  obtain ⟨q, hinv, hmem⟩ := hrep
  have hhead := hinv.list_eq l
  rw [hlist] at hhead
  have hne : q l ≠ [] := fun h => by rw [h] at hhead; cases hhead
  obtain ⟨r', rs, hq⟩ := List.exists_cons_of_ne_nil hne
  rw [hq, List.head?_cons, Option.some_inj] at hhead
  subst hhead
  have hfollow := follow_of_cycle (hinv.cycle l r rs hq)
  refine ⟨r :: rs, hq ▸ hinv.nodup l, fun x => hq ▸ hmem l x, rfl, hfollow.1, hfollow.2⟩

/-- A dequeue returns a reference of its list and clears its `pendingNext`. -/
theorem dequeue (hrep : Rep s A) {l : κ} {ref : ρ} (h : s.dequeuePendingReference l = some (ref, s')) :
    ref ∈ A l ∧ s'.pendingNext ref = none := by
  obtain ⟨q, hinv, hmem⟩ := hrep
  obtain ⟨href, hnull, -⟩ := hinv.dequeue h
  exact ⟨(hmem l ref).1 href, hnull⟩

/-- Dequeuing from a list until `*list` is NULL ends: there is such a run,
    one dequeue for each reference of the list. The induction is on the
    number of references the list holds. -/
theorem drain_exists (hrep : Rep s A) (l : κ) :
    ∃ (refs : List ρ) (s' : PendingLists ρ κ),
      pendingSystem.Run s (refs.map (PendingOp.dequeue l)) s' ∧ s'.list l = none := by
  induction hn : (A l).card generalizing s A with
  | zero =>
    rw [Finset.card_eq_zero] at hn
    exact ⟨[], s, .nil s, (hrep.list_eq_none_iff l).2 hn⟩
  | succ n ih =>
    obtain ⟨q, hinv, hmem⟩ := hrep
    have hne : q l ≠ [] := by
      intro h
      have hempty : A l = ∅ := Finset.eq_empty_iff_forall_notMem.2 fun x hx => by
        simpa [h] using (hmem l x).2 hx
      rw [hempty, Finset.card_empty] at hn
      cases hn
    obtain ⟨ref, s₁, hdeq⟩ := hinv.dequeue_isSome hne
    have hstep : pendingSystem.step (.dequeue l ref) s s₁ := by
      change pendingStep (.dequeue l ref) s = some s₁
      rw [pendingStep, hdeq]
      exact if_pos rfl
    obtain ⟨A₁, ⟨href, rfl⟩, hrep₁⟩ := Rep.step ⟨q, hinv, hmem⟩ hstep
    have hcard : (Function.update A l ((A l).erase ref) l).card = n := by
      rw [Function.update_self, Finset.card_erase_of_mem href, hn, Nat.add_sub_cancel]
    obtain ⟨refs, s', hrun, hnull⟩ := ih hrep₁ hcard
    exact ⟨ref :: refs, s', .cons hstep hrun, hnull⟩

/-- A run of dequeues from one list that ends with `*list` NULL returns each
    reference the list held exactly once. The induction is on the run. -/
theorem drain_returns (hrep : Rep s A) {l : κ} {refs : List ρ}
    (h : pendingSystem.Run s (refs.map (PendingOp.dequeue l)) s') (hnull : s'.list l = none) :
    refs.Nodup ∧ ∀ x, x ∈ refs ↔ x ∈ A l := by
  induction refs generalizing s A with
  | nil =>
    cases h
    rw [(hrep.list_eq_none_iff l).1 hnull]
    exact ⟨List.nodup_nil, by simp⟩
  | cons ref refs ih =>
    cases h with
    | cons hstep hrun =>
      obtain ⟨A₁, ⟨href, rfl⟩, hrep₁⟩ := hrep.step hstep
      obtain ⟨hnodup, hmem⟩ := ih hrep₁ hrun
      -- the rest of the run returns the list without `ref`
      have hmem' : ∀ x, x ∈ refs ↔ x ≠ ref ∧ x ∈ A l := fun x => by
        rw [hmem, Function.update_self, Finset.mem_erase]
      refine ⟨List.nodup_cons.2 ⟨fun h => ((hmem' ref).1 h).1 rfl, hnodup⟩, fun x => ?_⟩
      rw [List.mem_cons, hmem']
      by_cases hx : x = ref
      · subst hx
        exact ⟨fun _ => href, fun _ => .inl rfl⟩
      · simp [hx]

end Rep

/-- The pending-reference lists through every run of enqueues of references
    whose `pendingNext` is NULL and dequeues from lists that are not NULL,
    from empty lists: the run is a run of the abstract lists, which hold the
    references enqueued and not yet dequeued; in the state it reaches,
    `*list` is NULL exactly when its list holds nothing; otherwise following
    `pendingNext` from `*list` visits each reference of the list once, and
    no other object, before it comes back to `*list`; IsEnqueued holds
    exactly for the references of some list; a dequeue returns a reference
    of its list and clears its `pendingNext`; and dequeuing a list until
    `*list` is NULL ends and returns each of its references once. -/
theorem pendingReferences_cyclic {s₀ s : PendingLists ρ κ} {ops : List (PendingOp ρ κ)}
    (h₀ : s₀.IsInitial) (hrun : pendingSystem.Run s₀ ops s) :
    ∃ A, pendingSpec.Run (fun _ => ∅) ops A ∧
      (∀ l, s.list l = none ↔ A l = ∅) ∧
      (∀ l r, s.list l = some r → ∃ order : List ρ, order.Nodup ∧ (∀ x, x ∈ order ↔ x ∈ A l) ∧
        order.head? = some r ∧
        (∀ (i : Nat) (hi : i < order.length), follow s.pendingNext r i = some order[i]) ∧
        follow s.pendingNext r order.length = some r) ∧
      (∀ r, s.isEnqueued r = true ↔ ∃ l, r ∈ A l) ∧
      (∀ l ref s', s.dequeuePendingReference l = some (ref, s') →
        ref ∈ A l ∧ s'.pendingNext ref = none) ∧
      (∀ l, ∃ (refs : List ρ) (s' : PendingLists ρ κ),
        pendingSystem.Run s (refs.map (PendingOp.dequeue l)) s' ∧ s'.list l = none) ∧
      (∀ l (refs : List ρ) s', pendingSystem.Run s (refs.map (PendingOp.dequeue l)) s' →
        s'.list l = none → refs.Nodup ∧ ∀ x, x ∈ refs ↔ x ∈ A l) := by
  obtain ⟨A, hspec, hrep⟩ := (Rep.initial h₀).run hrun
  exact ⟨A, hspec, hrep.list_eq_none_iff, fun _ _ hlist => hrep.cycle hlist, hrep.isEnqueued_iff,
    fun _ _ _ h => hrep.dequeue h, hrep.drain_exists, fun _ _ _ h hnull => hrep.drain_returns h hnull⟩

/-- Two references and one list, nothing enqueued. -/
def noPending : PendingLists (Fin 2) Unit := ⟨fun _ => none, fun _ => none⟩

/-- Enqueue `0` and `1` on the list, then dequeue, which returns `1`. -/
def twoRefsOps : List (PendingOp (Fin 2) Unit) := [.enqueue 0 (), .enqueue 1 (), .dequeue () 1]

/-- The lists after `twoRefsOps`: `1` linked past and cleared. -/
def onePending : PendingLists (Fin 2) Unit :=
  let s := (noPending.enqueuePendingReference 0 ()).enqueuePendingReference 1 ()
  { s with pendingNext := Function.update (Function.update s.pendingNext 0 (s.pendingNext 1)) 1 none }

theorem pendingReferences_cyclic_twoRefs :
    noPending.IsInitial ∧ pendingSystem.Run noPending twoRefsOps onePending ∧
    ∃ A, pendingSpec.Run (fun _ => ∅) twoRefsOps A ∧
      (∀ l, onePending.list l = none ↔ A l = ∅) ∧
      (∀ l r, onePending.list l = some r → ∃ order : List (Fin 2), order.Nodup ∧
        (∀ x, x ∈ order ↔ x ∈ A l) ∧ order.head? = some r ∧
        (∀ (i : Nat) (hi : i < order.length), follow onePending.pendingNext r i = some order[i]) ∧
        follow onePending.pendingNext r order.length = some r) ∧
      (∀ r, onePending.isEnqueued r = true ↔ ∃ l, r ∈ A l) ∧
      (∀ l ref s', onePending.dequeuePendingReference l = some (ref, s') →
        ref ∈ A l ∧ s'.pendingNext ref = none) ∧
      (∀ l, ∃ (refs : List (Fin 2)) (s' : PendingLists (Fin 2) Unit),
        pendingSystem.Run onePending (refs.map (PendingOp.dequeue l)) s' ∧ s'.list l = none) ∧
      (∀ l (refs : List (Fin 2)) s', pendingSystem.Run onePending (refs.map (PendingOp.dequeue l)) s' →
        s'.list l = none → refs.Nodup ∧ ∀ x, x ∈ refs ↔ x ∈ A l) := by
  have h₀ : noPending.IsInitial := ⟨fun _ => rfl, fun _ => rfl⟩
  -- each step of the run evaluates to the next state
  have hrun : pendingSystem.Run noPending twoRefsOps onePending := .cons rfl (.cons rfl (.cons rfl (.nil _)))
  exact ⟨h₀, hrun, pendingReferences_cyclic h₀ hrun⟩

end Gc

end ArtRuntime
