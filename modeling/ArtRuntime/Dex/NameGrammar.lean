import Mathlib

/-!
# The Grammar of Names

The dex format gives member names and type descriptors a grammar over the
characters of a string. A `SimpleName` is a non-empty sequence of
`SimpleNameChar`s: letters, digits, `$`, `-`, `_`, and the Unicode
characters that are no controls, spaces or specials. A member name is a
`SimpleName`, or one between `<` and `>`. A type descriptor is `V`, or up to
255 `[` followed by a primitive type letter or by `L`, a class name of
`/`-separated `SimpleName`s, and `;`. The runtime checks two more kinds of
class name, those of `Class.forName` (`.`-separated) and of JNI
(`/`-separated), which may also be array descriptors written with that
separator.

The grammar is stated over the UTF-16 code units a string decodes to, in
which a character above U+FFFF is a pair of surrogates. `nextChar` reads one
`SimpleNameChar` off the front of a sequence of units. The first unit
decides how many units it takes, so the sequences of the grammar can be
recognised from left to right, one `nextChar` at a time. `ClassNameTail` is
what may follow once a class name has one or more characters in its last
component.

## Main definitions

* `IsSimpleNameUnit`, `IsLeadSurrogate`, `IsTrailSurrogate`: Kinds of code
  unit.
* `SimpleNameSeq`, `SimpleName`: Sequences of `SimpleNameChar`s.
* `nextChar`: The `SimpleNameChar` at the front.
* `ClassNameUnits`, `ClassNameTail`: Class names, from a component's start and
  from inside one.
* `FieldTypeUnits`, `IsArrayDescriptor`: Descriptors after their `[`s, and
  array descriptors.
* `IsMemberName`, `IsDescriptor`, `IsBinaryClassName`, `IsJniClassName`: The
  four kinds of name.

## Theorems

* `simpleNameSeq_cons_iff`: A sequence of characters is one character
  followed by such a sequence.
* `classNameUnits_cons_iff`, `classNameTail_cons_iff`: A class name is read
  one character or separator at a time.
* `fieldTypeUnits_cons_iff`: A descriptor is a primitive type letter, or `L`,
  a class name and `;`.
-/

namespace ArtRuntime

namespace Names

/-- The code unit of an ASCII character. -/
def unit (c : Char) : UInt16 := c.toNat.toUInt16

/-- A code unit that is a `SimpleNameChar` on its own: `A` to `Z`, `a` to
    `z`, `0` to `9`, `$`, `-`, `_`, U+00A1 to U+1FFF, U+2010 to U+2027,
    U+2030 to U+D7FF and U+E000 to U+FFEF. -/
def IsSimpleNameUnit (c : UInt16) : Prop :=
  (0x41 ≤ c.toNat ∧ c.toNat ≤ 0x5a) ∨ (0x61 ≤ c.toNat ∧ c.toNat ≤ 0x7a) ∨
    (0x30 ≤ c.toNat ∧ c.toNat ≤ 0x39) ∨ c.toNat = 0x24 ∨ c.toNat = 0x2d ∨ c.toNat = 0x5f ∨
    (0xa1 ≤ c.toNat ∧ c.toNat ≤ 0x1fff) ∨ (0x2010 ≤ c.toNat ∧ c.toNat ≤ 0x2027) ∨
    (0x2030 ≤ c.toNat ∧ c.toNat ≤ 0xd7ff) ∨ (0xe000 ≤ c.toNat ∧ c.toNat ≤ 0xffef)

/-- The first unit of a surrogate pair. -/
def IsLeadSurrogate (c : UInt16) : Prop := 0xd800 ≤ c.toNat ∧ c.toNat ≤ 0xdbff

/-- The second unit of a surrogate pair. -/
def IsTrailSurrogate (c : UInt16) : Prop := 0xdc00 ≤ c.toNat ∧ c.toNat ≤ 0xdfff

instance : DecidablePred IsSimpleNameUnit := fun _ =>
  inferInstanceAs (Decidable (_ ∨ _))

instance : DecidablePred IsLeadSurrogate := fun _ => inferInstanceAs (Decidable (_ ∧ _))

instance : DecidablePred IsTrailSurrogate := fun _ => inferInstanceAs (Decidable (_ ∧ _))

/-- A sequence of `SimpleNameChar`s, each one unit or a surrogate pair (a
    character from U+10000 to U+10FFFF). -/
inductive SimpleNameSeq : List UInt16 → Prop
  | nil : SimpleNameSeq []
  | unit {c : UInt16} {s : List UInt16} : IsSimpleNameUnit c → SimpleNameSeq s →
      SimpleNameSeq (c :: s)
  | pair {hi lo : UInt16} {s : List UInt16} : IsLeadSurrogate hi → IsTrailSurrogate lo →
      SimpleNameSeq s → SimpleNameSeq (hi :: lo :: s)

/-- `SimpleName`: a non-empty sequence of `SimpleNameChar`s. -/
def SimpleName (s : List UInt16) : Prop := s ≠ [] ∧ SimpleNameSeq s

/-- The units after the `SimpleNameChar` at the front, if one is there. -/
def nextChar : List UInt16 → Option (List UInt16)
  | [] => none
  | c :: us =>
    if IsSimpleNameUnit c then some us
    else if IsLeadSurrogate c then
      match us with
      | d :: r => if IsTrailSurrogate d then some r else none
      | [] => none
    else none

/-- `SimpleName (sep SimpleName)*`. -/
inductive ClassNameUnits (sep : UInt16) : List UInt16 → Prop
  | last {s : List UInt16} : SimpleName s → ClassNameUnits sep s
  | cons {s rest : List UInt16} : SimpleName s → ClassNameUnits sep rest →
      ClassNameUnits sep (s ++ sep :: rest)

/-- What may follow once the last component of a class name has begun: the
    rest of that component, and then nothing or a separator and a class
    name. -/
def ClassNameTail (sep : UInt16) (u : List UInt16) : Prop :=
  ∃ v, SimpleNameSeq v ∧ (u = v ∨ ∃ rest, u = v ++ sep :: rest ∧ ClassNameUnits sep rest)

/-- A descriptor after its `[`s: a primitive type letter, or `L`, a class
    name with separator `sep`, and `;`. -/
inductive FieldTypeUnits (sep : UInt16) : List UInt16 → Prop
  | primitive {c : UInt16} : c ∈ "ZBSCIJFD".toList.map unit → FieldTypeUnits sep [c]
  | reference {s : List UInt16} : ClassNameUnits sep s →
      FieldTypeUnits sep (unit 'L' :: (s ++ [unit ';']))

/-- A member name: a `SimpleName`, or one between `<` and `>`. -/
def IsMemberName (s : List UInt16) : Prop :=
  SimpleName s ∨ ∃ n, SimpleName n ∧ s = unit '<' :: (n ++ [unit '>'])

/-- A type descriptor: `V`, or up to 255 `[` and a descriptor with `/` as
    separator. -/
def IsDescriptor (s : List UInt16) : Prop :=
  s = [unit 'V'] ∨
    ∃ k n, k ≤ 255 ∧ FieldTypeUnits (unit '/') n ∧ s = List.replicate k (unit '[') ++ n

/-- An array descriptor with separator `sep`: one to 255 `[` and a
    descriptor. -/
def IsArrayDescriptor (sep : UInt16) (s : List UInt16) : Prop :=
  ∃ k n, 1 ≤ k ∧ k ≤ 255 ∧ FieldTypeUnits sep n ∧ s = List.replicate k (unit '[') ++ n

/-- The class name of `Class.forName`, or an array descriptor, with `.`. -/
def IsBinaryClassName (s : List UInt16) : Prop :=
  ClassNameUnits (unit '.') s ∨ IsArrayDescriptor (unit '.') s

/-- The class name of JNI, or an array descriptor, with `/`. -/
def IsJniClassName (s : List UInt16) : Prop :=
  ClassNameUnits (unit '/') s ∨ IsArrayDescriptor (unit '/') s

/-! ### Reading one character at a time -/

theorem nextChar_cons (c : UInt16) (us : List UInt16) :
    nextChar (c :: us) =
      if IsSimpleNameUnit c then some us
      else if IsLeadSurrogate c then
        match us with
        | d :: r => if IsTrailSurrogate d then some r else none
        | [] => none
      else none := rfl

theorem not_isLeadSurrogate_of_isSimpleNameUnit {c : UInt16} (h : IsSimpleNameUnit c) :
    ¬ IsLeadSurrogate c := by
  unfold IsSimpleNameUnit at h
  unfold IsLeadSurrogate
  omega

theorem nextChar_cons_of_isSimpleNameUnit {c : UInt16} (h : IsSimpleNameUnit c)
    (us : List UInt16) : nextChar (c :: us) = some us := by
  rw [nextChar_cons, if_pos h]

theorem nextChar_pair {hi lo : UInt16} (hhi : IsLeadSurrogate hi) (hlo : IsTrailSurrogate lo)
    (r : List UInt16) : nextChar (hi :: lo :: r) = some r := by
  rw [nextChar_cons, if_neg (fun h => not_isLeadSurrogate_of_isSimpleNameUnit h hhi), if_pos hhi]
  dsimp only
  rw [if_pos hlo]

/-- What `nextChar` finds: one unit, or a surrogate pair. -/
theorem nextChar_eq_some {c : UInt16} {us r : List UInt16} (h : nextChar (c :: us) = some r) :
    (IsSimpleNameUnit c ∧ r = us) ∨
      (IsLeadSurrogate c ∧ ∃ d, IsTrailSurrogate d ∧ us = d :: r) := by
  rw [nextChar_cons] at h
  by_cases hc : IsSimpleNameUnit c
  · rw [if_pos hc, Option.some.injEq] at h
    exact Or.inl ⟨hc, h.symm⟩
  · rw [if_neg hc] at h
    by_cases hl : IsLeadSurrogate c
    · rw [if_pos hl] at h
      -- the pair needs a trailing surrogate next
      rcases us with _ | ⟨d, r'⟩
      · cases h
      · dsimp only at h
        by_cases hd : IsTrailSurrogate d
        · rw [if_pos hd, Option.some.injEq] at h
          exact Or.inr ⟨hl, d, hd, by rw [h]⟩
        · rw [if_neg hd] at h
          cases h
    · rw [if_neg hl] at h
      cases h

/-- A character takes at least one unit. -/
theorem length_lt_of_nextChar {c : UInt16} {us r : List UInt16}
    (h : nextChar (c :: us) = some r) : r.length < (c :: us).length := by
  rcases nextChar_eq_some h with ⟨-, rfl⟩ | ⟨-, d, -, rfl⟩
  · exact Nat.lt_succ_self _
  · simp

/-- A unit that is no `SimpleNameChar` and no leading surrogate starts no
    character. -/
theorem nextChar_eq_none_of_not {c : UInt16} (hs : ¬ IsSimpleNameUnit c)
    (hl : ¬ IsLeadSurrogate c) (us : List UInt16) : nextChar (c :: us) = none := by
  rw [nextChar_cons, if_neg hs, if_neg hl]

/-- A sequence of characters is empty, or one character and a sequence. -/
theorem simpleNameSeq_cons_iff (c : UInt16) (us : List UInt16) :
    SimpleNameSeq (c :: us) ↔ ∃ r, nextChar (c :: us) = some r ∧ SimpleNameSeq r := by
  constructor
  · intro h
    cases h with
    | unit hc hs => exact ⟨us, nextChar_cons_of_isSimpleNameUnit hc us, hs⟩
    | pair hhi hlo hs => exact ⟨_, nextChar_pair hhi hlo _, hs⟩
  · rintro ⟨r, hnext, hr⟩
    rcases nextChar_eq_some hnext with ⟨hc, rfl⟩ | ⟨hl, d, hd, rfl⟩
    · exact .unit hc hr
    · exact .pair hl hd hr

/-- A unit that starts no character starts no sequence of them but the empty
    one. -/
theorem not_simpleNameSeq_cons {c : UInt16} {us : List UInt16}
    (h : nextChar (c :: us) = none) : ¬ SimpleNameSeq (c :: us) := by
  rw [simpleNameSeq_cons_iff]
  rintro ⟨r, hr, -⟩
  rw [h] at hr
  cases hr

/-- The character `nextChar` reads is a prefix of the units. -/
theorem nextChar_append {c : UInt16} {us r : List UInt16} (h : nextChar (c :: us) = some r)
    (tail : List UInt16) : nextChar (c :: us ++ tail) = some (r ++ tail) := by
  rcases nextChar_eq_some h with ⟨hc, rfl⟩ | ⟨hl, d, hd, rfl⟩
  · exact nextChar_cons_of_isSimpleNameUnit hc _
  · exact nextChar_pair hl hd _

/-- A character read off units that end in `t` was read off the units
    before `t`. -/
theorem nextChar_eq_some_append {c : UInt16} {us v t : List UInt16}
    (h : nextChar (c :: us) = some (v ++ t)) :
    ∃ us', us = us' ++ t ∧ nextChar (c :: us') = some v := by
  rcases nextChar_eq_some h with ⟨hc, hus⟩ | ⟨hl, d, hd, hus⟩
  · exact ⟨v, hus.symm, nextChar_cons_of_isSimpleNameUnit hc v⟩
  · exact ⟨d :: v, by rw [hus, List.cons_append], nextChar_pair hl hd v⟩

/-! ### Class names -/

section ClassName

variable {sep : UInt16}

/-- A class name is one `SimpleName`, or one, a separator and a class name. -/
theorem classNameUnits_cases {u : List UInt16} (h : ClassNameUnits sep u) :
    SimpleName u ∨ ∃ s rest, SimpleName s ∧ ClassNameUnits sep rest ∧ u = s ++ sep :: rest := by
  cases h with
  | last hs => exact Or.inl hs
  | cons hs hrest => exact Or.inr ⟨_, _, hs, hrest, rfl⟩

theorem not_classNameUnits_nil : ¬ ClassNameUnits sep [] := by
  intro h
  rcases classNameUnits_cases h with hs | ⟨s, rest, -, -, h⟩
  · exact hs.1 rfl
  · simp at h

theorem classNameTail_nil : ClassNameTail sep [] := ⟨[], .nil, Or.inl rfl⟩

/-- A class name that begins with a character: the rest is a tail. -/
theorem classNameUnits_cons_iff (c : UInt16) (us : List UInt16) :
    ClassNameUnits sep (c :: us) ↔ ∃ r, nextChar (c :: us) = some r ∧ ClassNameTail sep r := by
  constructor
  · intro h
    rcases classNameUnits_cases h with hs | ⟨s, rest, hs, hrest, heq⟩
    · rcases (simpleNameSeq_cons_iff c us).1 hs.2 with ⟨r, hnext, hr⟩
      exact ⟨r, hnext, r, hr, Or.inl rfl⟩
    · -- the first component is not empty: `c` begins it
      rcases s with _ | ⟨c', s'⟩
      · exact absurd rfl hs.1
      · rw [List.cons_append, List.cons.injEq] at heq
        rcases heq with ⟨rfl, rfl⟩
        rcases (simpleNameSeq_cons_iff c s').1 hs.2 with ⟨r', hnext, hr'⟩
        exact ⟨r' ++ sep :: rest, nextChar_append hnext _, r', hr', Or.inr ⟨rest, rfl, hrest⟩⟩
  · rintro ⟨r, hnext, v, hv, hcase⟩
    rcases hcase with rfl | ⟨rest, rfl, hrest⟩
    · exact .last ⟨List.cons_ne_nil c us, (simpleNameSeq_cons_iff c us).2 ⟨r, hnext, hv⟩⟩
    · rcases nextChar_eq_some_append hnext with ⟨us', rfl, hnext'⟩
      exact .cons ⟨List.cons_ne_nil c us', (simpleNameSeq_cons_iff c us').2 ⟨v, hnext', hv⟩⟩ hrest

/-- A tail that begins with a character other than the separator: the rest
    is a tail. -/
theorem classNameTail_cons_iff {c : UInt16} (hc : c ≠ sep) (us : List UInt16) :
    ClassNameTail sep (c :: us) ↔ ∃ r, nextChar (c :: us) = some r ∧ ClassNameTail sep r := by
  constructor
  · rintro ⟨v, hv, hcase⟩
    rcases v with _ | ⟨c', v'⟩
    · -- an empty rest of the component: `c` would be the separator
      rcases hcase with h | ⟨rest, h, -⟩
      · cases h
      · rw [List.nil_append, List.cons.injEq] at h
        exact absurd h.1 hc
    · rcases hcase with h | ⟨rest, h, hrest⟩
      · rw [h]
        rcases (simpleNameSeq_cons_iff c' v').1 hv with ⟨r, hnext, hr⟩
        exact ⟨r, hnext, r, hr, Or.inl rfl⟩
      · rw [List.cons_append, List.cons.injEq] at h
        rcases h with ⟨rfl, rfl⟩
        rcases (simpleNameSeq_cons_iff c v').1 hv with ⟨r', hnext, hr'⟩
        exact ⟨r' ++ sep :: rest, nextChar_append hnext _, r', hr', Or.inr ⟨rest, rfl, hrest⟩⟩
  · rintro ⟨r, hnext, v, hv, hcase⟩
    rcases hcase with rfl | ⟨rest, rfl, hrest⟩
    · exact ⟨c :: us, (simpleNameSeq_cons_iff c us).2 ⟨r, hnext, hv⟩, Or.inl rfl⟩
    · rcases nextChar_eq_some_append hnext with ⟨us', rfl, hnext'⟩
      exact ⟨c :: us', (simpleNameSeq_cons_iff c us').2 ⟨v, hnext', hv⟩,
        Or.inr ⟨rest, rfl, hrest⟩⟩

/-- After a separator a class name starts again. -/
theorem classNameTail_sep_iff (hsep : ∀ us, nextChar (sep :: us) = none) (us : List UInt16) :
    ClassNameTail sep (sep :: us) ↔ ClassNameUnits sep us := by
  constructor
  · rintro ⟨v, hv, hcase⟩
    rcases v with _ | ⟨c', v'⟩
    · rcases hcase with h | ⟨rest, h, hrest⟩
      · cases h
      · rw [List.nil_append, List.cons.injEq] at h
        rw [h.2]
        exact hrest
    · -- the separator begins no character
      have hc' : c' = sep := by
        rcases hcase with h | ⟨rest, h, -⟩
        · exact (List.cons.inj h).1.symm
        · exact (List.cons.inj h).1.symm
      rw [hc'] at hv
      exact absurd hv (not_simpleNameSeq_cons (hsep v'))
  · intro h
    exact ⟨[], .nil, Or.inr ⟨us, rfl, h⟩⟩

end ClassName

/-! ### Names followed by what ends them

A loop that reads a name from the left stops at the end of the string, at
the `>` of an angle-bracketed member name, or at the `;` of a descriptor: `t`
is what ends the name. -/

section Then

variable {sep : UInt16} {t : List UInt16}

/-- A sequence of characters, then `t`. -/
def SeqThen (t u : List UInt16) : Prop :=
  ∃ s, SimpleNameSeq s ∧ u = s ++ t

/-- From the start of a component: a class name, then `t`. -/
def ClassNameThen (sep : UInt16) (t u : List UInt16) : Prop :=
  ∃ s, ClassNameUnits sep s ∧ u = s ++ t

/-- From inside a component: the tail of a class name, then `t`. -/
def ClassTailThen (sep : UInt16) (t u : List UInt16) : Prop :=
  ∃ s, ClassNameTail sep s ∧ u = s ++ t

theorem seqThen_nil_iff : SeqThen t [] ↔ t = [] := by
  constructor
  · rintro ⟨s, -, h⟩
    exact (List.append_eq_nil_iff.1 h.symm).2
  · rintro rfl
    exact ⟨[], .nil, rfl⟩

/-- Units that begin a sequence followed by `t`: `t` itself, or a character
    and then such units. -/
theorem seqThen_cons_iff (c : UInt16) (us : List UInt16) :
    SeqThen t (c :: us) ↔ t = c :: us ∨ ∃ r, nextChar (c :: us) = some r ∧ SeqThen t r := by
  constructor
  · rintro ⟨s, hs, h⟩
    rcases s with _ | ⟨c', s'⟩
    · exact Or.inl h.symm
    · rw [List.cons_append, List.cons.injEq] at h
      rcases h with ⟨rfl, rfl⟩
      rcases (simpleNameSeq_cons_iff c s').1 hs with ⟨r, hnext, hr⟩
      exact Or.inr ⟨r ++ t, nextChar_append hnext t, r, hr, rfl⟩
  · rintro (h | ⟨r, hnext, s, hs, rfl⟩)
    · exact ⟨[], .nil, h.symm⟩
    · rcases nextChar_eq_some_append hnext with ⟨us', rfl, hnext'⟩
      exact ⟨c :: us', (simpleNameSeq_cons_iff c us').2 ⟨s, hnext', hs⟩, rfl⟩

theorem classNameThen_nil_iff (u : List UInt16) : ClassNameThen sep [] u ↔ ClassNameUnits sep u :=
  ⟨fun ⟨s, hs, h⟩ => by rw [h, List.append_nil]; exact hs, fun h => ⟨u, h, (List.append_nil u).symm⟩⟩

theorem not_classNameThen_nil : ¬ ClassNameThen sep t [] := by
  rintro ⟨s, hs, h⟩
  rw [(List.append_eq_nil_iff.1 h.symm).1] at hs
  exact not_classNameUnits_nil hs

theorem classTailThen_nil_iff : ClassTailThen sep t [] ↔ t = [] := by
  constructor
  · rintro ⟨s, -, h⟩
    exact (List.append_eq_nil_iff.1 h.symm).2
  · rintro rfl
    exact ⟨[], classNameTail_nil, rfl⟩

theorem classNameThen_cons_iff (c : UInt16) (us : List UInt16) :
    ClassNameThen sep t (c :: us) ↔ ∃ r, nextChar (c :: us) = some r ∧ ClassTailThen sep t r := by
  constructor
  · rintro ⟨s, hs, h⟩
    rcases s with _ | ⟨c', s'⟩
    · exact absurd hs not_classNameUnits_nil
    · rw [List.cons_append, List.cons.injEq] at h
      rcases h with ⟨rfl, rfl⟩
      rcases (classNameUnits_cons_iff c s').1 hs with ⟨r, hnext, hr⟩
      exact ⟨r ++ t, nextChar_append hnext t, r, hr, rfl⟩
  · rintro ⟨r, hnext, s, hs, rfl⟩
    rcases nextChar_eq_some_append hnext with ⟨us', rfl, hnext'⟩
    exact ⟨c :: us', (classNameUnits_cons_iff c us').2 ⟨s, hnext', hs⟩, rfl⟩

theorem classTailThen_cons_iff {c : UInt16} (hc : c ≠ sep) (us : List UInt16) :
    ClassTailThen sep t (c :: us) ↔
      t = c :: us ∨ ∃ r, nextChar (c :: us) = some r ∧ ClassTailThen sep t r := by
  constructor
  · rintro ⟨s, hs, h⟩
    rcases s with _ | ⟨c', s'⟩
    · exact Or.inl h.symm
    · rw [List.cons_append, List.cons.injEq] at h
      rcases h with ⟨rfl, rfl⟩
      rcases (classNameTail_cons_iff hc s').1 hs with ⟨r, hnext, hr⟩
      exact Or.inr ⟨r ++ t, nextChar_append hnext t, r, hr, rfl⟩
  · rintro (h | ⟨r, hnext, s, hs, rfl⟩)
    · exact ⟨[], classNameTail_nil, h.symm⟩
    · rcases nextChar_eq_some_append hnext with ⟨us', rfl, hnext'⟩
      exact ⟨c :: us', (classNameTail_cons_iff hc us').2 ⟨s, hnext', hs⟩, rfl⟩

theorem not_classNameThen_of_nextChar {c : UInt16} {us : List UInt16}
    (h : nextChar (c :: us) = none) : ¬ ClassNameThen sep t (c :: us) := by
  rw [classNameThen_cons_iff, h]
  rintro ⟨r, hr, -⟩
  cases hr

theorem not_classTailThen_of_nextChar {c : UInt16} (hc : c ≠ sep) {us : List UInt16}
    (ht : t ≠ c :: us) (h : nextChar (c :: us) = none) : ¬ ClassTailThen sep t (c :: us) := by
  rw [classTailThen_cons_iff hc, h]
  rintro (h' | ⟨r, hr, -⟩)
  · exact ht h'
  · cases hr

/-- After a separator a class name starts again, when `t` does not begin
    with the separator. -/
theorem classTailThen_sep_iff (hsep : ∀ us, nextChar (sep :: us) = none)
    (ht : ∀ x ∈ t.head?, x ≠ sep) (us : List UInt16) :
    ClassTailThen sep t (sep :: us) ↔ ClassNameThen sep t us := by
  constructor
  · rintro ⟨s, hs, h⟩
    rcases s with _ | ⟨c', s'⟩
    · -- `t` would begin with the separator
      rw [List.nil_append] at h
      exact absurd rfl (ht sep (by rw [← h]; rfl))
    · rw [List.cons_append, List.cons.injEq] at h
      rcases h with ⟨rfl, rfl⟩
      exact ⟨s', (classNameTail_sep_iff hsep s').1 hs, rfl⟩
  · rintro ⟨s, hs, rfl⟩
    exact ⟨sep :: s, (classNameTail_sep_iff hsep s).2 hs, rfl⟩

end Then

/-! ### Member names -/

/-- A string that begins with `<` is a member name, or `<>`, exactly when a
    sequence of characters and `>` follow the `<`. -/
theorem isMemberName_angle_iff (us : List UInt16) :
    IsMemberName (unit '<' :: us) ∨ unit '<' :: us = [unit '<', unit '>'] ↔
      SeqThen [unit '>'] us := by
  constructor
  · rintro ((hs | ⟨n, hn, heq⟩) | heq)
    · -- `<` starts no character
      exact absurd hs.2 (not_simpleNameSeq_cons (nextChar_eq_none_of_not (by decide) (by decide) us))
    · exact ⟨n, hn.2, (List.cons.inj heq).2⟩
    · exact ⟨[], .nil, (List.cons.inj heq).2⟩
  · rintro ⟨s, hs, rfl⟩
    rcases s with _ | ⟨c, s'⟩
    · exact Or.inr rfl
    · exact Or.inl (Or.inr ⟨c :: s', ⟨List.cons_ne_nil c s', hs⟩, rfl⟩)

/-- A string that begins with another unit is a member name exactly when it
    is a sequence of characters. -/
theorem isMemberName_iff_of_ne {c : UInt16} (hc : c ≠ unit '<') (us : List UInt16) :
    IsMemberName (c :: us) ∨ c :: us = [unit '<', unit '>'] ↔ SeqThen [] (c :: us) := by
  constructor
  · rintro ((hs | ⟨n, -, heq⟩) | heq)
    · exact ⟨c :: us, hs.2, (List.append_nil _).symm⟩
    · exact absurd (List.cons.inj heq).1 hc
    · exact absurd (List.cons.inj heq).1 hc
  · rintro ⟨s, hs, heq⟩
    rw [List.append_nil] at heq
    exact Or.inl (Or.inl ⟨List.cons_ne_nil c us, heq ▸ hs⟩)

/-! ### Descriptors -/

theorem not_fieldTypeUnits_nil {sep : UInt16} : ¬ FieldTypeUnits sep [] := by
  intro h
  cases h

/-- The primitive type letters, in the order of IsValidClassName's switch. -/
theorem mem_primitives_iff (c : UInt16) :
    c ∈ "ZBSCIJFD".toList.map unit ↔
      c = unit 'B' ∨ c = unit 'C' ∨ c = unit 'D' ∨ c = unit 'F' ∨ c = unit 'I' ∨ c = unit 'J' ∨
        c = unit 'S' ∨ c = unit 'Z' := by
  simp only [show "ZBSCIJFD".toList = ['Z', 'B', 'S', 'C', 'I', 'J', 'F', 'D'] from rfl,
    List.map_cons, List.map_nil, List.mem_cons, List.not_mem_nil, or_false]
  tauto

/-- A descriptor after its `[`s is a primitive type letter alone, or `L`, a
    class name and `;`. -/
theorem fieldTypeUnits_cons_iff {sep : UInt16} (c : UInt16) (us : List UInt16) :
    FieldTypeUnits sep (c :: us) ↔
      (c ∈ "ZBSCIJFD".toList.map unit ∧ us = []) ∨
        (c = unit 'L' ∧ ClassNameThen sep [unit ';'] us) := by
  constructor
  · intro h
    cases h with
    | primitive hc => exact Or.inl ⟨hc, rfl⟩
    | reference hs => exact Or.inr ⟨rfl, _, hs, rfl⟩
  · rintro (⟨hc, rfl⟩ | ⟨rfl, s, hs, rfl⟩)
    · exact .primitive hc
    · exact .reference hs

/-- A descriptor after its `[`s does not begin with another `[`. -/
theorem FieldTypeUnits.head?_ne {sep : UInt16} {n : List UInt16} (h : FieldTypeUnits sep n) :
    n.head? ≠ some (unit '[') := by
  cases h with
  | primitive hc =>
    rw [List.head?_cons, ne_eq, Option.some.injEq]
    intro heq
    rw [heq] at hc
    exact absurd hc (by decide)
  | reference _ => simp only [List.head?_cons, ne_eq, Option.some.injEq]; decide

/-! ### Array dimensions

A name is split into its leading `[`s and the rest, which does not begin
with `[`: the split is unique, so the count of `[`s is the grammar's. -/

section Replicate

variable {α : Type} {a : α}

/-- Every list is a run of `a` and a rest that does not begin with `a`. -/
theorem exists_replicate_append (a : α) (u : List α) :
    ∃ k v, u = List.replicate k a ++ v ∧ v.head? ≠ some a := by
  induction u with
  | nil => exact ⟨0, [], rfl, by simp⟩
  | cons x u ih =>
    by_cases hx : x = a
    · rcases ih with ⟨k, v, rfl, hv⟩
      exact ⟨k + 1, v, by rw [hx, List.replicate_succ, List.cons_append], hv⟩
    · exact ⟨0, x :: u, rfl, by simpa using hx⟩

/-- The run is as long as it can be, so the split is unique. -/
theorem replicate_append_inj {k k' : Nat} {v v' : List α} (hv : v.head? ≠ some a)
    (hv' : v'.head? ≠ some a) (h : List.replicate k a ++ v = List.replicate k' a ++ v') :
    k = k' ∧ v = v' := by
  induction k generalizing k' with
  | zero =>
    cases k' with
    | zero => exact ⟨rfl, h⟩
    | succ k' =>
      rw [List.replicate_zero, List.nil_append, List.replicate_succ, List.cons_append] at h
      exact absurd (by rw [h]; rfl) hv
  | succ k ih =>
    cases k' with
    | zero =>
      rw [List.replicate_zero, List.nil_append, List.replicate_succ, List.cons_append] at h
      exact absurd (by rw [← h]; rfl) hv'
    | succ k' =>
      rw [List.replicate_succ, List.replicate_succ, List.cons_append, List.cons_append,
        List.cons.injEq] at h
      rcases ih h.2 with ⟨rfl, rfl⟩
      exact ⟨rfl, rfl⟩

end Replicate

/-- A class name does not begin with `[`. -/
theorem classNameUnits_replicate_iff {sep : UInt16} (k : Nat) (v : List UInt16) :
    ClassNameUnits sep (List.replicate k (unit '[') ++ v) ↔ k = 0 ∧ ClassNameUnits sep v := by
  cases k with
  | zero => simp
  | succ k =>
    rw [List.replicate_succ, List.cons_append, classNameUnits_cons_iff,
      nextChar_eq_none_of_not (by decide) (by decide)]
    simp

theorem isArrayDescriptor_replicate_iff {sep : UInt16} {v : List UInt16}
    (hv : v.head? ≠ some (unit '[')) (k : Nat) :
    IsArrayDescriptor sep (List.replicate k (unit '[') ++ v) ↔
      1 ≤ k ∧ k ≤ 255 ∧ FieldTypeUnits sep v := by
  constructor
  · rintro ⟨k', n, h1, h255, hn, heq⟩
    rcases replicate_append_inj hv hn.head?_ne heq with ⟨rfl, rfl⟩
    exact ⟨h1, h255, hn⟩
  · rintro ⟨h1, h255, hn⟩
    exact ⟨k, v, h1, h255, hn, rfl⟩

theorem isDescriptor_replicate_iff {v : List UInt16} (hv : v.head? ≠ some (unit '[')) (k : Nat) :
    IsDescriptor (List.replicate k (unit '[') ++ v) ↔
      (k = 0 ∧ v = [unit 'V']) ∨ (k ≤ 255 ∧ FieldTypeUnits (unit '/') v) := by
  constructor
  · rintro (h | ⟨k', n, h255, hn, heq⟩)
    · -- `V` is no array
      have h' : List.replicate k (unit '[') ++ v = List.replicate 0 (unit '[') ++ [unit 'V'] := h
      exact Or.inl (replicate_append_inj hv (by decide) h')
    · rcases replicate_append_inj hv hn.head?_ne heq with ⟨rfl, rfl⟩
      exact Or.inr ⟨h255, hn⟩
  · rintro (⟨rfl, rfl⟩ | ⟨h255, hn⟩)
    · exact Or.inl rfl
    · exact Or.inr ⟨k, v, h255, hn, rfl⟩

end Names

end ArtRuntime
