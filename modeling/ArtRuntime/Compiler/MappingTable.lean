import ArtRuntime.Base.Leb128

/-!
# The Quick Compiler's Mapping Table

The table that maps native pc offsets to dex pcs and back, written by
`Mir2Lir::CreateMappingTables` and read through the runtime's `MappingTable`.
It is a run of unsigned LEB128 values: the total number of entries, the
number of pc-to-dex entries, then each pc-to-dex entry as its native pc
offset and its dex pc, then each dex-to-pc entry the same way.

The reader finds everything by decoding from the start: the sizes from the
two header values, the dex-to-pc section by skipping the pc-to-dex pairs
(`FirstDexToPcPtr`). An iterator holds an element count, the section's size
as its end, a pointer, and the entry it has read. The constructor of the
first iterator reads the first entry; `++` reads the next one unless the
count has reached the end, so that the last `++` of a loop reads nothing.

The constructor has no such guard: it reads an entry even when the section
is empty. A table whose dex-to-pc section is empty ends after the last
pc-to-dex pair, and `DexToPcBegin` decodes two values starting there, past
the end of the data (`dexToPcBegin_reads_past_end`). Every caller iterates
both sections (`ArtMethod::ToDexPc`, `ArtMethod::ToNativePc`), and most
methods have no exported pcs.

A pointer is `Option Nat`, `NULL` or a position in the table's bytes; a
read through `NULL` or at a position past the last byte is `none`, so a
function that returns a value read only bytes of the table.

## Main definitions

* `MappingTable`, `totalSize`, `dexToPcSize`, `pcToDexSize`,
  `firstDexToPcPtr`, `firstPcToDexPtr`: The table and its header.
* `Iterator`, `Iterator.create`, `Iterator.increment`: Both iterator
  classes, which differ only in the section they read.
* `Iterator.walk`: The callers' loop from a first iterator to an end count.
* `createMappingTables`: The encoder.

## Theorems

* `createMappingTables_eq`: The encoded table as header and pairs.
* `walk_of_rest`: A loop over a section yields the pairs encoded in it.
* `totalSize_createMappingTables`, `pcToDexSize_createMappingTables`,
  `dexToPcSize_createMappingTables`: The sizes decode as the counts.
* `pcToDexEntries_createMappingTables`, `dexToPcEntries_createMappingTables`:
  Iterating a section that is not empty yields its pairs.
* `dexToPcBegin_reads_past_end`: With no dex-to-pc entries, the first
  dex-to-pc iterator reads past the end of the table.
-/

namespace ArtRuntime

open MachineWord Leb128

/-- A `MappingTable`: the encoded map it was built on, `NULL` for a method
    without one. -/
structure MappingTable where
  encoded_table : Option (List UInt8)

namespace MappingTable

/-- `DecodeUnsignedLeb128(&ptr)` through a pointer into the table: the value
    and the pointer moved past it. -/
def decodeAt (t : MappingTable) : Option Nat → Option (UInt32 × Option Nat)
  | none => none
  | some ptr => do
    let data ← t.encoded_table
    let (value, next) ← decodeUnsignedLeb128 data ptr
    pure (value, some next)

/-- `MappingTable::TotalSize`. -/
def totalSize (t : MappingTable) : Option UInt32 :=
  match t.encoded_table with
  | none => some 0
  | some _ => do
    let (total_size, _) ← t.decodeAt (some 0)
    pure total_size

/-- `MappingTable::DexToPcSize`: the difference of the two header values, in
    `uint32_t`. -/
def dexToPcSize (t : MappingTable) : Option UInt32 :=
  match t.encoded_table with
  | none => some 0
  | some _ => do
    let (total_size, table) ← t.decodeAt (some 0)
    let (pc_to_dex_size, _) ← t.decodeAt table
    pure (total_size - pc_to_dex_size)

/-- `MappingTable::PcToDexSize`. -/
def pcToDexSize (t : MappingTable) : Option UInt32 :=
  match t.encoded_table with
  | none => some 0
  | some _ => do
    let (_, table) ← t.decodeAt (some 0)
    let (pc_to_dex_size, _) ← t.decodeAt table
    pure pc_to_dex_size

/-- The loop of `FirstDexToPcPtr`: past `n` pairs of values. -/
def skipPairs (t : MappingTable) : Nat → Option Nat → Option (Option Nat)
  | 0, table => some table
  | n + 1, table => do
    let (_, table) ← t.decodeAt table
    let (_, table) ← t.decodeAt table
    t.skipPairs n table

/-- `MappingTable::FirstDexToPcPtr`: past the header and the pc-to-dex pairs. -/
def firstDexToPcPtr (t : MappingTable) : Option (Option Nat) :=
  match t.encoded_table with
  | none => some none
  | some _ => do
    let (_, table) ← t.decodeAt (some 0)
    let (pc_to_dex_size, table) ← t.decodeAt table
    t.skipPairs pc_to_dex_size.toNat table

/-- `MappingTable::FirstPcToDexPtr`: past the header. -/
def firstPcToDexPtr (t : MappingTable) : Option (Option Nat) :=
  match t.encoded_table with
  | none => some none
  | some _ => do
    let (_, table) ← t.decodeAt (some 0)
    let (_, table) ← t.decodeAt table
    pure table

/-- The fields of `DexToPcIterator` and of `PcToDexIterator`. -/
structure Iterator where
  element : UInt32
  end_ : UInt32
  encoded_table_ptr : Option Nat
  native_pc_offset : UInt32
  dex_pc : UInt32

namespace Iterator

/-- The constructor of both iterator classes, given the section's size and
    first pointer. The first iterator reads its entry at once, whatever the
    size; another is an end count and reads nothing (the `DCHECK_EQ` on its
    count is a debug check and not modelled). -/
def create (t : MappingTable) (size : MappingTable → Option UInt32)
    (firstPtr : MappingTable → Option (Option Nat)) (element : UInt32) : Option Iterator := do
  let end_ ← size t
  if element = 0 then
    let ptr ← firstPtr t
    let (native_pc_offset, ptr) ← t.decodeAt ptr
    let (dex_pc, ptr) ← t.decodeAt ptr
    pure ⟨element, end_, ptr, native_pc_offset, dex_pc⟩
  else
    pure ⟨element, end_, none, 0, 0⟩

/-- `operator++` of both iterator classes: the next entry is read unless the
    count has reached the end. -/
def increment (t : MappingTable) (it : Iterator) : Option Iterator :=
  let element := it.element + 1
  if element ≠ it.end_ then do
    let (native_pc_offset, ptr) ← t.decodeAt it.encoded_table_ptr
    let (dex_pc, ptr) ← t.decodeAt ptr
    pure { it with element, encoded_table_ptr := ptr, native_pc_offset, dex_pc }
  else
    pure { it with element }

theorem element_increment {t : MappingTable} {it next : Iterator}
    (h : it.increment t = some next) : next.element = it.element + 1 := by
  unfold increment at h
  dsimp only at h
  split_ifs at h
  · -- two reads, then the new fields
    simp only [Option.bind_eq_bind, Option.bind_eq_some_iff, Option.pure_def,
      Option.some.injEq] at h
    obtain ⟨⟨_, _⟩, _, ⟨_, _⟩, _, rfl⟩ := h
    rfl
  · simp only [Option.pure_def, Option.some.injEq] at h
    rw [← h]

/-- Each `++` short of the end brings the count one closer to it. -/
theorem toNat_sub_element_lt {t : MappingTable} {it next : Iterator} {stop : UInt32}
    (h : it.element ≠ stop) (hn : it.increment t = some next) :
    (stop - next.element).toNat < (stop - it.element).toNat := by
  rw [element_increment hn, toNat_sub_add_one h]
  have : (stop - it.element).toNat ≠ 0 := fun h0 => h (toNat_sub_eq_zero_iff.mp h0)
  omega

/-- The callers' loop `for (it = begin; it != end; ++it)`, which compares
    only the counts, collecting each entry as it is reached. -/
def walk (t : MappingTable) (stop : UInt32) (it : Iterator) : Option (List (UInt32 × UInt32)) :=
  if h : it.element = stop then some []
  else
    match hn : it.increment t with
    | none => none
    | some next =>
      have _hlt := toNat_sub_element_lt h hn
      (next.walk t stop).map ((it.native_pc_offset, it.dex_pc) :: ·)
termination_by (stop - it.element).toNat
decreasing_by exact _hlt

end Iterator

/-- `DexToPcIterator(table, element)`. -/
def dexToPcIterator (t : MappingTable) (element : UInt32) : Option Iterator :=
  Iterator.create t dexToPcSize firstDexToPcPtr element

/-- `PcToDexIterator(table, element)`. -/
def pcToDexIterator (t : MappingTable) (element : UInt32) : Option Iterator :=
  Iterator.create t pcToDexSize firstPcToDexPtr element

/-- `MappingTable::DexToPcBegin`. -/
def dexToPcBegin (t : MappingTable) : Option Iterator := t.dexToPcIterator 0

/-- `MappingTable::DexToPcEnd`. -/
def dexToPcEnd (t : MappingTable) : Option Iterator := do
  let size ← t.dexToPcSize
  t.dexToPcIterator size

/-- `MappingTable::PcToDexBegin`. -/
def pcToDexBegin (t : MappingTable) : Option Iterator := t.pcToDexIterator 0

/-- `MappingTable::PcToDexEnd`. -/
def pcToDexEnd (t : MappingTable) : Option Iterator := do
  let size ← t.pcToDexSize
  t.pcToDexIterator size

/-- Iterating the dex-to-pc entries, as `ArtMethod::ToNativePc` does. -/
def dexToPcEntries (t : MappingTable) : Option (List (UInt32 × UInt32)) := do
  let cur ← t.dexToPcBegin
  let last ← t.dexToPcEnd
  cur.walk t last.element

/-- Iterating the pc-to-dex entries, as `ArtMethod::ToDexPc` does. -/
def pcToDexEntries (t : MappingTable) : Option (List (UInt32 × UInt32)) := do
  let cur ← t.pcToDexBegin
  let last ← t.pcToDexEnd
  cur.walk t last.element

/-- `Mir2Lir::CreateMappingTables` from the two lists of (native pc offset,
    dex pc) pairs its walk over the instructions collects. The vectors hold
    the pairs flattened; the counts are `size_t` narrowed to `uint32_t`. -/
def createMappingTables (pc2dex dex2pc : List (UInt32 × UInt32)) : List UInt8 :=
  let pc2dex_mapping_table := pc2dex.flatMap fun lir => [lir.1, lir.2]
  let dex2pc_mapping_table := dex2pc.flatMap fun lir => [lir.1, lir.2]
  let total_entries : UInt32 :=
    ((pc2dex_mapping_table.length + dex2pc_mapping_table.length) / 2).toUInt32
  let pc2dex_entries : UInt32 := (pc2dex_mapping_table.length / 2).toUInt32
  let encoded_mapping_table := pushBack [] total_entries
  let encoded_mapping_table := pushBack encoded_mapping_table pc2dex_entries
  let encoded_mapping_table := insertBack encoded_mapping_table pc2dex_mapping_table
  insertBack encoded_mapping_table dex2pc_mapping_table

/-! ### The layout -/

/-- The bytes of one entry: its native pc offset, then its dex pc. -/
def encodePair (entry : UInt32 × UInt32) : List UInt8 :=
  pushBackLoop entry.1 ++ pushBackLoop entry.2

theorem length_flatMap_pair (entries : List (UInt32 × UInt32)) :
    (entries.flatMap fun lir => [lir.1, lir.2]).length = 2 * entries.length := by
  induction entries with
  | nil => rfl
  | cons e es ih =>
    rw [List.flatMap_cons, List.length_append, ih, List.length_cons]
    simp only [List.length_cons, List.length_nil]
    omega

theorem flatMap_pair_pushBackLoop (entries : List (UInt32 × UInt32)) :
    (entries.flatMap fun lir => [lir.1, lir.2]).flatMap pushBackLoop =
      entries.flatMap encodePair := by
  induction entries with
  | nil => rfl
  | cons e es ih =>
    rw [List.flatMap_cons, List.flatMap_append, ih, List.flatMap_cons]
    simp [encodePair]

/-- The encoded table: the two counts, then the pc-to-dex entries, then the
    dex-to-pc entries. -/
theorem createMappingTables_eq (pc2dex dex2pc : List (UInt32 × UInt32)) :
    createMappingTables pc2dex dex2pc =
      pushBackLoop (pc2dex.length + dex2pc.length).toUInt32 ++
        pushBackLoop pc2dex.length.toUInt32 ++ pc2dex.flatMap encodePair ++
        dex2pc.flatMap encodePair := by
  simp only [createMappingTables, insertBack_eq, pushBack, length_flatMap_pair,
    flatMap_pair_pushBackLoop, List.nil_append, List.append_assoc]
  -- the vectors hold two values per entry
  have htotal : (2 * pc2dex.length + 2 * dex2pc.length) / 2 = pc2dex.length + dex2pc.length := by
    omega
  have hpc : 2 * pc2dex.length / 2 = pc2dex.length := by omega
  rw [htotal, hpc]

/-! ### Reading the layout -/

section Reads

variable {t : MappingTable}

theorem decodeAt_eq (pre post : List UInt8) {v : UInt32}
    (ht : t.encoded_table = some (pre ++ pushBackLoop v ++ post)) :
    t.decodeAt (some pre.length) = some (v, some (pre ++ pushBackLoop v).length) := by
  simp only [decodeAt, ht, Option.bind_eq_bind, Option.bind_some,
    decodeUnsignedLeb128_pushBackLoop, List.length_append]
  rfl

/-- The two reads of one entry. -/
theorem decodeAt_pair (pre post : List UInt8) {entry : UInt32 × UInt32}
    (ht : t.encoded_table = some (pre ++ encodePair entry ++ post)) :
    t.decodeAt (some pre.length) = some (entry.1, some (pre ++ pushBackLoop entry.1).length) ∧
      t.decodeAt (some (pre ++ pushBackLoop entry.1).length) =
        some (entry.2, some (pre ++ encodePair entry).length) := by
  constructor
  · exact decodeAt_eq pre (pushBackLoop entry.2 ++ post)
      (by simp only [ht, encodePair, List.append_assoc])
  · rw [encodePair, ← List.append_assoc]
    exact decodeAt_eq (pre ++ pushBackLoop entry.1) post
      (by simp only [ht, encodePair, List.append_assoc])

/-- The loop of `FirstDexToPcPtr` over encoded entries ends just past them. -/
theorem skipPairs_eq (pre post : List UInt8) {entries : List (UInt32 × UInt32)}
    (ht : t.encoded_table = some (pre ++ entries.flatMap encodePair ++ post)) :
    t.skipPairs entries.length (some pre.length) =
      some (some (pre ++ entries.flatMap encodePair).length) := by
  induction entries generalizing pre with
  | nil => simp [skipPairs]
  | cons e es ih =>
    -- read the first entry, then the rest from just past it
    have ht' : t.encoded_table = some (pre ++ encodePair e ++ (es.flatMap encodePair ++ post)) := by
      simp only [ht, List.flatMap_cons, List.append_assoc]
    obtain ⟨h1, h2⟩ := decodeAt_pair pre _ ht'
    rw [List.length_cons, skipPairs]
    simp only [Option.bind_eq_bind, h1, Option.bind_some, h2]
    rw [ih (pre ++ encodePair e) (by simp only [ht', List.append_assoc])]
    simp only [List.flatMap_cons, List.append_assoc]

end Reads

/-! ### The iterators -/

namespace Iterator

variable {t : MappingTable} {it next : Iterator} {stop : UInt32}

theorem increment_of_eq (h : it.element + 1 = it.end_) :
    it.increment t = some { it with element := it.element + 1 } := by
  simp only [increment, ne_eq, h, not_true_eq_false, if_false, Option.pure_def]

theorem increment_of_ne {a b : UInt32} {p q : Option Nat} (h : it.element + 1 ≠ it.end_)
    (h1 : t.decodeAt it.encoded_table_ptr = some (a, p)) (h2 : t.decodeAt p = some (b, q)) :
    it.increment t =
      some { it with
        element := it.element + 1, encoded_table_ptr := q, native_pc_offset := a, dex_pc := b } := by
  simp only [increment, ne_eq, h, not_false_eq_true, if_true, Option.bind_eq_bind, h1,
    Option.bind_some, h2, Option.pure_def]

theorem walk_of_eq (h : it.element = stop) : it.walk t stop = some [] := by
  rw [walk, dif_pos h]

theorem walk_of_increment (h : it.element ≠ stop) (hn : it.increment t = some next) :
    it.walk t stop = (next.walk t stop).map ((it.native_pc_offset, it.dex_pc) :: ·) := by
  rw [walk, dif_neg h]
  split
  · rename_i heq
    rw [hn] at heq
    cases heq
  · rename_i next' heq
    rw [hn] at heq
    cases heq
    rfl

/-- The run of the loop over a section. An iterator that holds one entry,
    points at the encoded rest of the section and is as many counts short of
    the end as there are entries left yields that entry and the rest: each
    `++` but the last reads the next entry, and the last reads nothing. -/
theorem walk_of_rest (pre post : List UInt8) (it : Iterator) {rest : List (UInt32 × UInt32)}
    (ht : t.encoded_table = some (pre ++ rest.flatMap encodePair ++ post))
    (hptr : it.encoded_table_ptr = some pre.length) (hend : it.end_ = stop)
    (hcount : (stop - it.element).toNat = rest.length + 1) :
    it.walk t stop = some ((it.native_pc_offset, it.dex_pc) :: rest) := by
  induction rest generalizing pre it with
  | nil =>
    obtain ⟨hne, hnext⟩ := ne_of_toNat_sub_eq_succ hcount
    -- the last `++` reaches the end without a read
    have hlast : it.element + 1 = it.end_ := by
      rw [hend]
      exact toNat_sub_eq_zero_iff.mp hnext
    rw [walk_of_increment hne (increment_of_eq hlast), walk_of_eq (hlast.trans hend)]
    rfl
  | cons e es ih =>
    obtain ⟨hne, hnext⟩ := ne_of_toNat_sub_eq_succ hcount
    have ht' : t.encoded_table = some (pre ++ encodePair e ++ (es.flatMap encodePair ++ post)) := by
      simp only [ht, List.flatMap_cons, List.append_assoc]
    obtain ⟨h1, h2⟩ := decodeAt_pair pre _ ht'
    have hmore : it.element + 1 ≠ it.end_ := by
      rw [hend]
      exact (ne_of_toNat_sub_eq_succ hnext).1
    -- `++` reads the next entry, and the loop goes on from there
    rw [walk_of_increment hne (increment_of_ne hmore (hptr ▸ h1) h2),
      ih (pre ++ encodePair e) _ ?_ ?_ ?_ ?_]
    · rfl
    · simp only [ht', List.append_assoc]
    · rfl
    · exact hend
    · exact hnext

/-! Both iterator classes are `create` with a section's size and first
pointer; these lemmas serve both. -/

variable {size : MappingTable → Option UInt32} {firstPtr : MappingTable → Option (Option Nat)}
  {n : UInt32}

/-- An end count reads nothing. -/
theorem create_of_ne (firstPtr : MappingTable → Option (Option Nat)) {element : UInt32}
    (hsize : size t = some n) (h : element ≠ 0) :
    create t size firstPtr element = some ⟨element, n, none, 0, 0⟩ := by
  simp only [create, hsize, Option.bind_eq_bind, Option.bind_some, if_neg h, Option.pure_def]

/-- The first iterator of a section that holds an entry reads it. -/
theorem create_first (pre post : List UInt8) (entry : UInt32 × UInt32)
    (ht : t.encoded_table = some (pre ++ encodePair entry ++ post)) (hsize : size t = some n)
    (hfirst : firstPtr t = some (some pre.length)) :
    create t size firstPtr 0 =
      some ⟨0, n, some (pre ++ encodePair entry).length, entry.1, entry.2⟩ := by
  obtain ⟨h1, h2⟩ := decodeAt_pair pre post ht
  simp only [create, hsize, hfirst, Option.bind_eq_bind, Option.bind_some, ↓reduceIte, h1, h2,
    Option.pure_def]

/-- The first iterator of a section that starts at the end of the data reads
    past it. -/
theorem create_first_of_end {data : List UInt8} (ht : t.encoded_table = some data)
    (hsize : size t = some n) (hfirst : firstPtr t = some (some data.length)) :
    create t size firstPtr 0 = none := by
  have hread : t.decodeAt (some data.length) = none := by
    simp only [decodeAt, ht, Option.bind_eq_bind, Option.bind_some,
      decodeUnsignedLeb128_of_length_le (Nat.le_refl _), Option.bind_none]
  simp only [create, hsize, hfirst, Option.bind_eq_bind, Option.bind_some, ↓reduceIte, hread,
    Option.bind_none]

end Iterator

/-! ### The header -/

section Header

variable {t : MappingTable} {total count : UInt32} {body : List UInt8}

theorem decodeAt_header (ht : t.encoded_table = some (pushBackLoop total ++ pushBackLoop count ++ body)) :
    t.decodeAt (some 0) = some (total, some (pushBackLoop total).length) ∧
      t.decodeAt (some (pushBackLoop total).length) =
        some (count, some (pushBackLoop total ++ pushBackLoop count).length) := by
  constructor
  · have h := decodeAt_eq (t := t) (v := total) [] (pushBackLoop count ++ body)
      (by simp only [ht, List.nil_append, List.append_assoc])
    simpa only [List.length_nil, List.nil_append] using h
  · exact decodeAt_eq (pushBackLoop total) body ht

theorem totalSize_eq (ht : t.encoded_table = some (pushBackLoop total ++ pushBackLoop count ++ body)) :
    t.totalSize = some total := by
  simp only [totalSize, ht, (decodeAt_header ht).1, Option.bind_eq_bind, Option.bind_some,
    Option.pure_def]

theorem pcToDexSize_eq (ht : t.encoded_table = some (pushBackLoop total ++ pushBackLoop count ++ body)) :
    t.pcToDexSize = some count := by
  simp only [pcToDexSize, ht, (decodeAt_header ht).1, (decodeAt_header ht).2,
    Option.bind_eq_bind, Option.bind_some, Option.pure_def]

theorem dexToPcSize_eq (ht : t.encoded_table = some (pushBackLoop total ++ pushBackLoop count ++ body)) :
    t.dexToPcSize = some (total - count) := by
  simp only [dexToPcSize, ht, (decodeAt_header ht).1, (decodeAt_header ht).2,
    Option.bind_eq_bind, Option.bind_some, Option.pure_def]

theorem firstPcToDexPtr_eq (ht : t.encoded_table = some (pushBackLoop total ++ pushBackLoop count ++ body)) :
    t.firstPcToDexPtr = some (some (pushBackLoop total ++ pushBackLoop count).length) := by
  simp only [firstPcToDexPtr, ht, (decodeAt_header ht).1, (decodeAt_header ht).2,
    Option.bind_eq_bind, Option.bind_some, Option.pure_def]

/-- `FirstDexToPcPtr` skips as many entries as the second count says. -/
theorem firstDexToPcPtr_eq {entries : List (UInt32 × UInt32)} (post : List UInt8)
    (ht : t.encoded_table =
      some (pushBackLoop total ++ pushBackLoop count ++ entries.flatMap encodePair ++ post))
    (hcount : count.toNat = entries.length) :
    t.firstDexToPcPtr =
      some (some (pushBackLoop total ++ pushBackLoop count ++ entries.flatMap encodePair).length) := by
  have ht' : t.encoded_table =
      some (pushBackLoop total ++ pushBackLoop count ++ (entries.flatMap encodePair ++ post)) := by
    simp only [ht, List.append_assoc]
  simp only [firstDexToPcPtr, ht, (decodeAt_header ht').1, (decodeAt_header ht').2,
    Option.bind_eq_bind, Option.bind_some, hcount]
  exact skipPairs_eq _ post ht

end Header

/-! ### Tables built by `CreateMappingTables` -/

section Built

variable {pc2dex dex2pc : List (UInt32 × UInt32)} {t : MappingTable}

theorem encoded_createMappingTables (ht : t.encoded_table = some (createMappingTables pc2dex dex2pc)) :
    t.encoded_table =
      some (pushBackLoop (pc2dex.length + dex2pc.length).toUInt32 ++
        pushBackLoop pc2dex.length.toUInt32 ++
        (pc2dex.flatMap encodePair ++ dex2pc.flatMap encodePair)) := by
  rw [ht, createMappingTables_eq, List.append_assoc]

theorem totalSize_createMappingTables
    (ht : t.encoded_table = some (createMappingTables pc2dex dex2pc)) :
    t.totalSize = some (pc2dex.length + dex2pc.length).toUInt32 :=
  totalSize_eq (encoded_createMappingTables ht)

theorem pcToDexSize_createMappingTables
    (ht : t.encoded_table = some (createMappingTables pc2dex dex2pc)) :
    t.pcToDexSize = some pc2dex.length.toUInt32 :=
  pcToDexSize_eq (encoded_createMappingTables ht)

/-- The difference of the counts is the dex-to-pc count, in `uint32_t`
    arithmetic whatever the lengths. -/
theorem dexToPcSize_createMappingTables
    (ht : t.encoded_table = some (createMappingTables pc2dex dex2pc)) :
    t.dexToPcSize = some dex2pc.length.toUInt32 := by
  rw [dexToPcSize_eq (encoded_createMappingTables ht), Option.some.injEq, ← UInt32.toNat_inj,
    UInt32.toNat_sub, toNat_toUInt32, toNat_toUInt32, toNat_toUInt32]
  omega

theorem firstDexToPcPtr_createMappingTables
    (ht : t.encoded_table = some (createMappingTables pc2dex dex2pc))
    (hlen : pc2dex.length < 2 ^ 32) :
    t.firstDexToPcPtr =
      some (some (pushBackLoop (pc2dex.length + dex2pc.length).toUInt32 ++
        pushBackLoop pc2dex.length.toUInt32 ++ pc2dex.flatMap encodePair).length) := by
  refine firstDexToPcPtr_eq (dex2pc.flatMap encodePair) ?_ ?_
  · rw [ht, createMappingTables_eq]
  · rw [toNat_toUInt32, Nat.mod_eq_of_lt hlen]

/-- A count of entries that fits and is not zero is not zero in `uint32_t`. -/
theorem toUInt32_length_ne_zero {l : List (UInt32 × UInt32)} (hlen : l.length < 2 ^ 32)
    (hne : l ≠ []) : l.length.toUInt32 ≠ 0 := by
  intro h
  have hpos := List.length_pos_iff.mpr hne
  have := congrArg UInt32.toNat h
  rw [toNat_toUInt32, Nat.mod_eq_of_lt hlen, UInt32.toNat_zero] at this
  omega

/-- Iterating the pc-to-dex section of a table that has entries there yields
    them in order. -/
theorem pcToDexEntries_createMappingTables
    (ht : t.encoded_table = some (createMappingTables pc2dex dex2pc))
    (hlen : pc2dex.length < 2 ^ 32) (hne : pc2dex ≠ []) :
    t.pcToDexEntries = some pc2dex := by
  obtain ⟨e, es, rfl⟩ := List.exists_cons_of_ne_nil hne
  have hdata := encoded_createMappingTables ht
  have hsize := pcToDexSize_createMappingTables ht
  -- the section starts just past the two counts
  set header := pushBackLoop ((e :: es).length + dex2pc.length).toUInt32 ++
    pushBackLoop (e :: es).length.toUInt32 with hheader
  have hbegin := Iterator.create_first header (es.flatMap encodePair ++ dex2pc.flatMap encodePair) e
    (by simp only [hdata, hheader, List.flatMap_cons, List.append_assoc]) hsize
    (firstPcToDexPtr_eq hdata)
  have hlast := Iterator.create_of_ne firstPcToDexPtr hsize
    (toUInt32_length_ne_zero hlen hne)
  simp only [pcToDexEntries, pcToDexBegin, pcToDexEnd, pcToDexIterator, hbegin, hsize, hlast,
    Option.bind_eq_bind, Option.bind_some]
  refine Iterator.walk_of_rest (header ++ encodePair e) (dex2pc.flatMap encodePair) _ ?_ rfl rfl ?_
  · simp only [hdata, hheader, List.flatMap_cons, List.append_assoc]
  · rw [UInt32.sub_zero, toNat_toUInt32, Nat.mod_eq_of_lt hlen, List.length_cons]

/-- Iterating the dex-to-pc section of a table that has entries there yields
    them in order. -/
theorem dexToPcEntries_createMappingTables
    (ht : t.encoded_table = some (createMappingTables pc2dex dex2pc))
    (hlen : pc2dex.length < 2 ^ 32) (hlen' : dex2pc.length < 2 ^ 32) (hne : dex2pc ≠ []) :
    t.dexToPcEntries = some dex2pc := by
  obtain ⟨e, es, rfl⟩ := List.exists_cons_of_ne_nil hne
  have hsize := dexToPcSize_createMappingTables ht
  -- the section starts past the counts and the pc-to-dex entries
  set skipped := pushBackLoop (pc2dex.length + (e :: es).length).toUInt32 ++
    pushBackLoop pc2dex.length.toUInt32 ++ pc2dex.flatMap encodePair with hskipped
  have hdata : t.encoded_table = some (skipped ++ encodePair e ++ es.flatMap encodePair) := by
    rw [ht, createMappingTables_eq, hskipped, List.flatMap_cons, List.append_assoc _ (encodePair e)]
  have hbegin := Iterator.create_first skipped (es.flatMap encodePair) e hdata hsize
    (firstDexToPcPtr_createMappingTables ht hlen)
  have hlast := Iterator.create_of_ne firstDexToPcPtr hsize
    (toUInt32_length_ne_zero hlen' hne)
  simp only [dexToPcEntries, dexToPcBegin, dexToPcEnd, dexToPcIterator, hbegin, hsize, hlast,
    Option.bind_eq_bind, Option.bind_some]
  refine Iterator.walk_of_rest (skipped ++ encodePair e) [] _ ?_ rfl rfl ?_
  · rw [hdata, List.append_nil]
  · rw [UInt32.sub_zero, toNat_toUInt32, Nat.mod_eq_of_lt hlen', List.length_cons]

/-- A table with no dex-to-pc entries: its dex-to-pc section is empty and
    starts at the end of the data, and `DexToPcBegin` reads from there, past
    the last byte. -/
theorem dexToPcBegin_reads_past_end (pc2dex : List (UInt32 × UInt32)) (t : MappingTable)
    (ht : t.encoded_table = some (createMappingTables pc2dex [])) (hlen : pc2dex.length < 2 ^ 32) :
    t.dexToPcSize = some 0 ∧
      t.firstDexToPcPtr = some (some (createMappingTables pc2dex []).length) ∧
      t.dexToPcBegin = none := by
  have hsize : t.dexToPcSize = some 0 := dexToPcSize_createMappingTables ht
  have hfirst : t.firstDexToPcPtr = some (some (createMappingTables pc2dex []).length) := by
    rw [firstDexToPcPtr_createMappingTables ht hlen, createMappingTables_eq, List.flatMap_nil,
      List.append_nil]
  exact ⟨hsize, hfirst, Iterator.create_first_of_end ht hsize hfirst⟩

/-- The table of a method with one safepoint and no exported pc. -/
def safepointOnlyTable : MappingTable := ⟨some (createMappingTables [(64, 3)] [])⟩

theorem dexToPcBegin_reads_past_end_safepointOnly :
    safepointOnlyTable.encoded_table = some (createMappingTables [(64, 3)] []) ∧
      [((64 : UInt32), (3 : UInt32))].length < 2 ^ 32 ∧
      safepointOnlyTable.dexToPcSize = some 0 ∧
      safepointOnlyTable.firstDexToPcPtr = some (some (createMappingTables [(64, 3)] []).length) ∧
      safepointOnlyTable.dexToPcBegin = none :=
  ⟨rfl, by decide, dexToPcBegin_reads_past_end [(64, 3)] safepointOnlyTable rfl (by decide)⟩

end Built

end MappingTable

end ArtRuntime
