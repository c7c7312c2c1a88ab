import Mathlib

/-!
# Sequential Layouts

Items given offsets one after another: each item's slot `[offset, offset +
width)` starts at or after the end of the slot before it. A layout built by
advancing an offset past each item is of this form, and from it follow the
facts a memory layout needs: every slot lies in the range the layout was
built in, and slots of different items do not overlap.

A layout that leaves no gap is of a stronger form: each item starts exactly
where the one before it ends. Then the concatenation of the items' blocks
holds each block at its item's offset, which is how an emitter that appends
one block after another agrees with the layout it was given. A writer that
pads up to each item's offset before its block, as one does that lays data
out after code, agrees with it too, so long as no block is wider than its
item.

## Main definitions

* `Packed`: Slots laid out in order inside a range.
* `Abutting`: Items laid end to end, with no gap.
* `placeAll`: Each item's block written at its offset, after padding.

## Theorems

* `Packed.le`, `Packed.append`, `Packed.mono`: The range of a layout, and
  layouts one after another.
* `Packed.slot_mem`: Every slot lies inside the range.
* `Packed.pairwise`: Each slot ends before any later one starts.
* `Abutting.of_forall₂`: Items with the same offsets and widths abut alike.
* `Abutting.pairwise`, `Abutting.off_add_le`: Abutting items do not
  overlap, and end within the run.
* `Abutting.dvd_off`: Aligned widths from an aligned start give aligned
  offsets.
* `Abutting.prefix_drop`, `Abutting.prefix_drop_append`: The concatenated
  blocks hold each block at its item's offset.
* `abutting_append`, `abutting_range`: Runs of items one after another, and
  items of one width.
* `length_flatMap_const`: Blocks of one length take it once for each item.
* `Abutting.prefix_placeAll`: Blocks written with padding up to their
  offsets stand there.
-/

namespace Layout

variable {α : Type} (width : α → Nat)

/-- `Packed width slots lo hi`: the slots, in order, start at or after `lo`,
    each at or after the end of the one before, and the last ends at or
    before `hi`. -/
def Packed : List (α × Nat) → Nat → Nat → Prop
  | [], lo, hi => lo ≤ hi
  | (a, off) :: rest, lo, hi => lo ≤ off ∧ Packed rest (off + width a) hi

variable {width}

@[simp] theorem packed_nil {lo hi : Nat} : Packed width [] lo hi ↔ lo ≤ hi := Iff.rfl

@[simp] theorem packed_cons {a : α} {off lo hi : Nat} {rest : List (α × Nat)} :
    Packed width ((a, off) :: rest) lo hi ↔ lo ≤ off ∧ Packed width rest (off + width a) hi :=
  Iff.rfl

theorem Packed.le {l : List (α × Nat)} {lo hi : Nat} (h : Packed width l lo hi) : lo ≤ hi := by
  induction l generalizing lo with
  | nil => exact h
  | cons s rest ih =>
      obtain ⟨a, off⟩ := s
      obtain ⟨hlo, hrest⟩ := h
      have := ih hrest
      omega

/-- A layout may start later than its range. -/
theorem Packed.mono {l : List (α × Nat)} {lo lo' hi : Nat} (h : Packed width l lo hi)
    (hle : lo' ≤ lo) : Packed width l lo' hi := by
  cases l with
  | nil => exact Nat.le_trans hle h
  | cons s rest =>
      obtain ⟨a, off⟩ := s
      exact ⟨Nat.le_trans hle h.1, h.2⟩

/-- Two layouts, the second starting where the first's range ends. -/
theorem Packed.append {l₁ l₂ : List (α × Nat)} {a b c : Nat} (h₁ : Packed width l₁ a b)
    (h₂ : Packed width l₂ b c) : Packed width (l₁ ++ l₂) a c := by
  induction l₁ generalizing a with
  | nil => exact h₂.mono h₁
  | cons s rest ih =>
      obtain ⟨x, off⟩ := s
      exact ⟨h₁.1, ih h₁.2⟩

theorem Packed.slot_mem {l : List (α × Nat)} {lo hi : Nat} (h : Packed width l lo hi)
    {a : α} {off : Nat} (hmem : (a, off) ∈ l) : lo ≤ off ∧ off + width a ≤ hi := by
  induction l generalizing lo with
  | nil => cases hmem
  | cons s rest ih =>
      obtain ⟨x, o⟩ := s
      obtain ⟨hlo, hrest⟩ := h
      rcases List.mem_cons.mp hmem with heq | hmem'
      · -- the first slot ends where the rest of the range starts
        obtain ⟨rfl, rfl⟩ := Prod.mk.inj heq
        exact ⟨hlo, hrest.le⟩
      · have := ih hrest hmem'
        omega

/-- Each slot ends at or before the start of every later slot, so the
    slots of two different items never overlap. -/
theorem Packed.pairwise {l : List (α × Nat)} {lo hi : Nat} (h : Packed width l lo hi) :
    l.Pairwise fun s t => s.2 + width s.1 ≤ t.2 := by
  induction l generalizing lo with
  | nil => exact List.Pairwise.nil
  | cons s rest ih =>
      obtain ⟨x, o⟩ := s
      obtain ⟨_, hrest⟩ := h
      refine List.Pairwise.cons ?_ (ih hrest)
      intro t ht
      exact (hrest.slot_mem ht).1

/-! ### Blocks laid end to end -/

variable (width)

/-- `Abutting width off items start`: the items laid end to end from
    `start`, each at its offset `off` and the next where its width ends. -/
def Abutting (off : α → Nat) : List α → Nat → Prop
  | [], _ => True
  | a :: rest, start => off a = start ∧ Abutting off rest (start + width a)

variable {width} {off : α → Nat}

@[simp] theorem abutting_nil {start : Nat} : Abutting width off [] start := trivial

@[simp] theorem abutting_cons {a : α} {rest : List α} {start : Nat} :
    Abutting width off (a :: rest) start ↔ off a = start ∧ Abutting width off rest (start + width a) :=
  Iff.rfl

theorem Abutting.le_off {items : List α} {start : Nat} (h : Abutting width off items start) :
    ∀ a ∈ items, start ≤ off a := by
  induction items generalizing start with
  | nil => intro a ha; cases ha
  | cons b rest ih =>
    obtain ⟨hb, hrest⟩ := h
    intro a ha
    rcases List.mem_cons.mp ha with rfl | ha
    · exact Nat.le_of_eq hb.symm
    · have := ih hrest a ha
      omega

/-- Each of abutting items ends by the end of the run. -/
theorem Abutting.off_add_le {items : List α} {start : Nat} (h : Abutting width off items start) :
    ∀ a ∈ items, off a + width a ≤ start + (items.map width).sum := by
  induction items generalizing start with
  | nil => intro a ha; cases ha
  | cons b rest ih =>
    obtain ⟨hb, hrest⟩ := h
    intro a ha
    simp only [List.map_cons, List.sum_cons]
    rcases List.mem_cons.mp ha with rfl | ha
    · omega
    · have := ih hrest a ha
      omega

/-- Each of abutting items ends at or before the start of every later one. -/
theorem Abutting.pairwise {items : List α} {start : Nat} (h : Abutting width off items start) :
    items.Pairwise fun a b => off a + width a ≤ off b := by
  induction items generalizing start with
  | nil => exact List.Pairwise.nil
  | cons b rest ih =>
    obtain ⟨hb, hrest⟩ := h
    refine List.Pairwise.cons (fun a ha => ?_) (ih hrest)
    have := hrest.le_off a ha
    omega

/-- Abutting items from an aligned start, each of an aligned width, all lie
    at aligned offsets. -/
theorem Abutting.dvd_off {items : List α} {start d : Nat} (h : Abutting width off items start)
    (hstart : d ∣ start) (hwidth : ∀ a ∈ items, d ∣ width a) : ∀ a ∈ items, d ∣ off a := by
  induction items generalizing start with
  | nil => intro a ha; cases ha
  | cons b rest ih =>
    obtain ⟨hb, hrest⟩ := h
    intro a ha
    rcases List.mem_cons.mp ha with rfl | ha
    · rw [hb]
      exact hstart
    · exact ih hrest (Nat.dvd_add hstart (hwidth b List.mem_cons_self))
        (fun c hc => hwidth c (List.mem_cons_of_mem _ hc)) a ha

/-- Items that keep their offsets and widths abut as the ones they replace. -/
theorem Abutting.of_forall₂ {items items' : List α} {start : Nat}
    (hrel : List.Forall₂ (fun a b => off b = off a ∧ width b = width a) items items')
    (h : Abutting width off items start) : Abutting width off items' start := by
  induction hrel generalizing start with
  | nil => trivial
  | cons hab _ ih =>
    obtain ⟨hoff, hwidth⟩ := hab
    obtain ⟨ha, hrest⟩ := h
    refine ⟨hoff.trans ha, ?_⟩
    rw [hwidth]
    exact ih hrest

/-- The blocks of abutting items, each as long as its item is wide, hold
    each item's block at its offset: what an emitter appending block after
    block writes agrees with the layout. -/
theorem Abutting.prefix_drop {β : Type} (block : α → List β) {items : List α} {start : Nat}
    (h : Abutting width off items start) (hblock : ∀ a ∈ items, (block a).length = width a) :
    ∀ a ∈ items, block a <+: (items.flatMap block).drop (off a - start) := by
  induction items generalizing start with
  | nil => intro a ha; cases ha
  | cons b rest ih =>
    obtain ⟨hb, hrest⟩ := h
    have hlen := hblock b List.mem_cons_self
    intro a ha
    rw [List.flatMap_cons]
    rcases List.mem_cons.mp ha with rfl | ha
    · -- the first block starts the concatenation
      rw [hb, Nat.sub_self, List.drop_zero]
      exact List.prefix_append _ _
    · -- a later block lies past the first, `width b` further on
      have hle := hrest.le_off a ha
      have hoff : off a - start = (block b).length + (off a - (start + width b)) := by omega
      rw [hoff, List.drop_length_add_append]
      exact ih hrest (fun c hc => hblock c (List.mem_cons_of_mem _ hc)) a ha

/-- Two runs of items abut as one when the second starts where the first
    ends. -/
theorem abutting_append {xs ys : List α} {start : Nat} :
    Abutting width off (xs ++ ys) start ↔
      Abutting width off xs start ∧ Abutting width off ys (start + (xs.map width).sum) := by
  induction xs generalizing start with
  | nil => simp
  | cons a xs ih =>
    simp only [List.cons_append, abutting_cons, ih, List.map_cons, List.sum_cons, Nat.add_assoc, and_assoc]

/-- Items of one width, numbered from 0, abut at the multiples of it. -/
theorem abutting_range (w n : Nat) : Abutting (fun _ => w) (fun i => w * i) (List.range n) 0 := by
  -- numbered from any `s`, they start at `w * s`
  have hfrom (n : Nat) : ∀ s, Abutting (fun _ => w) (fun i => w * i) (List.range' s n) (w * s) := by
    induction n with
    | zero => intro s; trivial
    | succ n ih =>
      intro s
      rw [List.range'_succ]
      exact ⟨rfl, by rw [← Nat.mul_succ]; exact ih (s + 1)⟩
  rw [List.range_eq_range']
  exact hfrom n 0

/-- Blocks of one length, appended one after another, take that length once
    for each item. -/
theorem length_flatMap_const {β : Type} {block : α → List β} {w : Nat} (hblock : ∀ a, (block a).length = w)
    (items : List α) : (items.flatMap block).length = w * items.length := by
  induction items with
  | nil => rfl
  | cons a rest ih =>
    rw [List.flatMap_cons, List.length_append, ih, hblock, List.length_cons, Nat.mul_succ, Nat.add_comm]

/-- The blocks of abutting items hold each block at its item's offset
    also behind a prefix that ends where the items start, and whatever
    follows them. -/
theorem Abutting.prefix_drop_append {β : Type} (block : α → List β) {items : List α} {pre : List β}
    (h : Abutting width off items pre.length) (hblock : ∀ a ∈ items, (block a).length = width a)
    (post : List β) : ∀ a ∈ items, block a <+: (pre ++ items.flatMap block ++ post).drop (off a) := by
  intro a ha
  have hle := h.le_off a ha
  have hdrop : (pre ++ items.flatMap block ++ post).drop (off a) =
      (items.flatMap block ++ post).drop (off a - pre.length) := by
    rw [List.append_assoc, List.drop_append, List.drop_eq_nil_of_le hle, List.nil_append]
  rw [hdrop]
  exact (h.prefix_drop block hblock a ha).trans ((List.prefix_append _ post).drop _)

/-! ### Blocks written at their offsets -/

/-- The items' blocks written one after another, each at its item's
    offset: the buffer is padded with `pad` up to the offset first, as a
    writer does that appends data after code which may end short of it. -/
def placeAll {β : Type} (pad : β) (off : α → Nat) (block : α → List β) : List β → List α → List β
  | buf, [] => buf
  | buf, a :: rest =>
    placeAll pad off block (buf ++ List.replicate (off a - buf.length) pad ++ block a) rest

/-- Blocks written at abutting offsets, none wider than its item, stand at
    their items' offsets of what is written; the buffer written into is
    kept in front, and the whole ends within the layout. -/
theorem Abutting.prefix_placeAll {β : Type} (pad : β) (block : α → List β) {items : List α}
    {start : Nat} {buf : List β} (h : Abutting width off items start) (hbuf : buf.length ≤ start)
    (hblock : ∀ a ∈ items, (block a).length ≤ width a) :
    buf <+: placeAll pad off block buf items ∧
      (placeAll pad off block buf items).length ≤ start + (items.map width).sum ∧
      ∀ a ∈ items, block a <+: (placeAll pad off block buf items).drop (off a) := by
  induction items generalizing start buf with
  | nil =>
    refine ⟨List.prefix_refl _, ?_, fun a ha => by cases ha⟩
    simp only [placeAll, List.map_nil, List.sum_nil]
    omega
  | cons b rest ih =>
    obtain ⟨hb, hrest⟩ := h
    have hlen := hblock b List.mem_cons_self
    -- the buffer padded up to the first item, which its block then follows
    have hpad : (buf ++ List.replicate (off b - buf.length) pad).length = off b := by
      simp only [List.length_append, List.length_replicate]
      omega
    have hbuf' : (buf ++ List.replicate (off b - buf.length) pad ++ block b).length ≤ start + width b := by
      rw [List.length_append, hpad]
      omega
    obtain ⟨hpre, hend, hat⟩ := ih hrest hbuf' (fun a ha => hblock a (List.mem_cons_of_mem _ ha))
    rw [placeAll]
    refine ⟨((List.prefix_append _ _).trans (List.prefix_append _ _)).trans hpre, ?_, ?_⟩
    · simp only [List.map_cons, List.sum_cons]
      omega
    · intro a ha
      rcases List.mem_cons.mp ha with rfl | ha
      · have hfirst := hpre.drop (off a)
        rwa [List.drop_left' hpad] at hfirst
      · exact hat a ha

end Layout
