import ArtRuntime.Core.Bytes
import ArtRuntime.Core.Probe

/-!
# The Native-PC Reference Map

The table the quick compiler attaches to a method so that the collector can
find, for a native return address, which registers hold references. It is
written by `NativePcToReferenceMapBuilder` (in the compiler's code generator)
and read by `NativePcOffsetToReferenceMap` (in the runtime), two classes that
share nothing but the byte layout:

* a four-byte header: the offset width in the low three bits of byte 0, the
  reference width in the upper five bits of byte 0 and all of byte 1, and the
  entry count in bytes 2 and 3;
* one record per entry, each an offset in `offset width` little-endian bytes
  followed by `reference width` bytes of bitmap, placed in an open-addressed
  table of exactly as many slots as there are entries, by linear probing from
  `Hash(offset) % entries`.

The builder is modelled as its state, `Builder`, with the constructor
`Builder.init` and the step `Builder.addEntry`; the reader as functions of the
finished byte table. Both loops over slots, the builder's search for a free
slot and the reader's search for an offset, are `LinearProbe.probe` with `n`
steps of fuel, which `LinearProbe.probe_eq_none_iff` shows is the whole loop.

Above the bytes sits an abstract table, `Slots`: the entry held by each slot,
if any. `realize` lays a `Slots` out as a builder state and `addEntry_realize`
says the builder's step is the abstract insertion laid out again. Every
theorem about the finished table is proved on `Slots`, with the invariants of
`Core.Probe`, and carried to the bytes by the layout lemmas.

## Main definitions

* `hash`: `NativePcOffsetToReferenceMap::Hash`.
* `Builder`, `Builder.init`, `Builder.addEntry`: The builder and its steps.
* `build`: Constructing a builder and adding every entry.
* `numEntries`, `regWidth`, `nativeOffsetWidth`, `getNativePcOffset`,
  `findBitMap`, `hasEntry`: The reader.
* `Slots`, `realize`, `insertSlot`: The abstract table and its layout.

## Theorems

* `addEntry_realize`: The builder refines the abstract table.
* `build_eq_realize`: The finished table is the layout of a full abstract
  table whose paths are occupied.
-/

namespace ArtRuntime

namespace NativeGcMap

open ByteList LinearProbe

/-- `NativePcOffsetToReferenceMap::Hash`. -/
def hash (native_offset : UInt32) : UInt32 :=
  let h := native_offset ^^^ ((native_offset >>> 20) ^^^ (native_offset >>> 12))
  h ^^^ ((h >>> 7) ^^^ (h >>> 4))

/-- The constructor's loop: bytes needed to hold `max_native_offset`, counted
    by shifting it right a byte at a time until it is zero. -/
def offsetWidth (max_native_offset : Nat) : Nat :=
  if max_native_offset = 0 then 0 else offsetWidth (max_native_offset >>> 8) + 1
termination_by max_native_offset
decreasing_by
  rw [Nat.shiftRight_eq_div_pow]
  omega

/-- The state of a `NativePcToReferenceMapBuilder`. -/
structure Builder where
  entries : Nat
  referencesWidth : Nat
  nativeOffsetWidth : Nat
  inUse : List Bool
  table : List UInt8
  deriving DecidableEq, Repr

namespace Builder

/-- `NativePcToReferenceMapBuilder::EntryWidth`. -/
def entryWidth (b : Builder) : Nat := b.nativeOffsetWidth + b.referencesWidth

/-- The four header bytes the constructor writes into `(*table)[0]` to
    `(*table)[3]`. -/
def header (entries native_offset_width references_width : Nat) : List UInt8 :=
  [UInt8.ofNat (native_offset_width &&& 7) ||| UInt8.ofNat ((references_width <<< 3) &&& 0xFF),
   UInt8.ofNat ((references_width >>> 5) &&& 0xFF),
   UInt8.ofNat (entries &&& 0xFF),
   UInt8.ofNat ((entries >>> 8) &&& 0xFF)]

/-- The constructor: size the table, zero it and write the header. Its three
    `CHECK_LT`s abort the compiler; the model returns `none` there. -/
def init (entries max_native_offset references_width : Nat) : Option Builder :=
  let now := offsetWidth max_native_offset
  let table := List.replicate ((now + references_width) * entries + 4) (0 : UInt8)
  if now < 1 <<< 3 ∧ references_width < 1 <<< 13 ∧ entries < 1 <<< 16 then
    some ⟨entries, references_width, now, List.replicate entries false,
      writeBytes table 0 (header entries now references_width)⟩
  else
    none

/-- `TableIndex`: the home slot of an offset. -/
def tableIndex (b : Builder) (native_offset : UInt32) : Nat :=
  (hash native_offset).toNat % b.entries

/-- `SetNativeOffset`: the offset's bytes, one shift and mask at a time. -/
def setNativeOffset (b : Builder) (table_index : Nat) (native_offset : UInt32) : List UInt8 :=
  let table_offset := table_index * b.entryWidth + 4
  (List.range b.nativeOffsetWidth).foldl
    (fun t i => t.set (table_offset + i) (UInt8.ofNat ((native_offset.toNat >>> (i * 8)) &&& 0xFF)))
    b.table

/-- `SetReferences`: the `memcpy` of `references_width_` bitmap bytes after
    the offset. -/
def setReferences (table : List UInt8) (b : Builder) (table_index : Nat)
    (references : List UInt8) : List UInt8 :=
  writeBytes table (table_index * b.entryWidth + 4 + b.nativeOffsetWidth)
    (references.take b.referencesWidth)

/-- `AddEntry`: probe from the home slot for a slot not in use, claim it and
    write the record. When every slot is in use the `while` loop never exits;
    the model returns `none`. -/
def addEntry (b : Builder) (native_offset : UInt32) (references : List UInt8) :
    Option Builder :=
  match probe (fun j => !b.inUse.getD j false) b.entries b.entries (b.tableIndex native_offset) with
  | none => none
  | some table_index =>
      some { b with
        inUse := b.inUse.set table_index true
        table := setReferences (b.setNativeOffset table_index native_offset) b table_index
          references }

end Builder

/-- `Mir2Lir::CreateNativeGcMap` with its reference bitmaps given: size the
    builder by the largest offset, then add every entry in order. -/
def build (entries : List (UInt32 × List UInt8)) (references_width : Nat) :
    Option (List UInt8) := do
  let max_native_offset := entries.foldl (fun m e => max m e.1.toNat) 0
  let b ← Builder.init entries.length max_native_offset references_width
  let b ← entries.foldlM (fun b e => b.addEntry e.1 e.2) b
  pure b.table

/-! ### The reader -/

/-- `NumEntries`. -/
def numEntries (data : List UInt8) : Nat :=
  (data.getD 2 0).toNat ||| ((data.getD 3 0).toNat <<< 8)

/-- `RegWidth`. -/
def regWidth (data : List UInt8) : Nat :=
  ((data.getD 0 0).toNat ||| ((data.getD 1 0).toNat <<< 8)) >>> 3

/-- `NativeOffsetWidth`. -/
def nativeOffsetWidth (data : List UInt8) : Nat :=
  (data.getD 0 0).toNat &&& 7

/-- `EntryWidth`. -/
def entryWidth (data : List UInt8) : Nat :=
  nativeOffsetWidth data + regWidth data

/-- `GetNativePcOffset`: the offset of slot `index`, one byte at a time. -/
def getNativePcOffset (data : List UInt8) (index : Nat) : Nat :=
  let entry_offset := index * entryWidth data
  (List.range (nativeOffsetWidth data)).foldl
    (fun r i => r ||| ((data.getD (4 + entry_offset + i) 0).toNat <<< (i * 8))) 0

/-- `GetBitMap`: where the bitmap of slot `index` starts in the table. -/
def getBitMap (data : List UInt8) (index : Nat) : Nat :=
  4 + index * entryWidth data + nativeOffsetWidth data

/-- `HasEntry`: some slot holds the offset. -/
def hasEntry (data : List UInt8) (native_pc_offset : Nat) : Bool :=
  (List.range (numEntries data)).any (fun i => getNativePcOffset data i == native_pc_offset)

/-- `FindBitMap`: probe from the offset's home slot for the slot holding it.
    The `while` loop has no other exit; the model returns `none` when it
    would run forever. -/
def findBitMap (data : List UInt8) (native_pc_offset : UInt32) : Option Nat :=
  let num_entries := numEntries data
  (probe (fun i => getNativePcOffset data i == native_pc_offset.toNat) num_entries num_entries
      ((hash native_pc_offset).toNat % num_entries)).map (getBitMap data)

/-! ### The abstract table -/

/-- The entry each slot holds, if any. -/
abbrev Slots := List (Option (UInt32 × List UInt8))

/-- A slot's record as the builder lays it out: zeros while the slot is free,
    else the offset's bytes and then the bitmap. -/
def encodeSlot (now w : Nat) : Option (UInt32 × List UInt8) → List UInt8
  | none => List.replicate (now + w) 0
  | some e => leEncode now e.1.toNat ++ e.2.take w

/-- The builder state that lays out `slots`, with offsets in `now` bytes and
    bitmaps of `w` bytes. -/
def realize (now w : Nat) (slots : Slots) : Builder :=
  ⟨slots.length, w, now, slots.map Option.isSome,
    Builder.header slots.length now w ++ (slots.map (encodeSlot now w)).flatten⟩

/-- Whether slot `j` holds an entry. -/
def occOf (slots : Slots) (j : Nat) : Bool := (slots.getD j none).isSome

/-- The offset slot `j` holds, and `0` for a free slot. -/
def keyOf (slots : Slots) (j : Nat) : Nat := ((slots.getD j none).map (·.1.toNat)).getD 0

/-- The hash as a function of an offset's value. -/
def homeHash (k : Nat) : Nat := (hash (UInt32.ofNat k)).toNat

/-- Abstract `AddEntry`: the first free slot on the offset's path takes the
    entry. -/
def insertSlot (slots : Slots) (e : UInt32 × List UInt8) : Option Slots :=
  (probe (fun j => !occOf slots j) slots.length slots.length
      (homeHash e.1.toNat % slots.length)).map (fun j => slots.set j (some e))

/-- The entries fit the layout: offsets below `256 ^ now`, bitmaps of `w`
    bytes. -/
def EntriesFit (now w : Nat) (es : List (UInt32 × List UInt8)) : Prop :=
  ∀ e ∈ es, e.1.toNat < 256 ^ now ∧ e.2.length = w

@[simp] theorem homeHash_toNat (o : UInt32) : homeHash o.toNat = (hash o).toNat := by
  simp [homeHash]

theorem getD_set_none (slots : Slots) (j j' : Nat) (x : Option (UInt32 × List UInt8)) :
    (slots.set j x).getD j' none = if j = j' ∧ j < slots.length then x else slots.getD j' none := by
  rw [List.getD_eq_getElem?_getD, List.getElem?_set, List.getD_eq_getElem?_getD]
  by_cases hjj : j = j'
  · subst hjj
    by_cases hj : j < slots.length <;> simp [hj]
  · simp [hjj]

theorem occOf_of_getD {slots : Slots} {j : Nat} {x : Option (UInt32 × List UInt8)}
    (hx : slots.getD j none = x) : occOf slots j = x.isSome := by
  rw [occOf, hx]

theorem keyOf_of_getD_some {slots : Slots} {j : Nat} {e : UInt32 × List UInt8}
    (hx : slots.getD j none = some e) : keyOf slots j = e.1.toNat := by
  rw [keyOf, hx]
  rfl

theorem keyOf_of_getD_none {slots : Slots} {j : Nat} (hx : slots.getD j none = none) :
    keyOf slots j = 0 := by
  rw [keyOf, hx]
  rfl

theorem occOf_set {slots : Slots} {j : Nat} (hj : j < slots.length) (e : UInt32 × List UInt8) :
    occOf (slots.set j (some e)) = Function.update (occOf slots) j true := by
  funext j'
  rw [occOf, getD_set_none, Function.update_apply]
  by_cases hjj : j' = j
  · simp [hjj, hj]
  · simp [Ne.symm hjj, occOf, hjj]

theorem keyOf_set {slots : Slots} {j : Nat} (hj : j < slots.length) (e : UInt32 × List UInt8) :
    keyOf (slots.set j (some e)) = Function.update (keyOf slots) j e.1.toNat := by
  funext j'
  rw [keyOf, getD_set_none, Function.update_apply]
  by_cases hjj : j' = j
  · simp [hjj, hj]
  · simp [Ne.symm hjj, keyOf, hjj]

theorem length_encodeSlot {now w : Nat} {x : Option (UInt32 × List UInt8)}
    (hx : ∀ e, x = some e → e.2.length = w) : (encodeSlot now w x).length = now + w := by
  cases x with
  | none => simp [encodeSlot]
  | some e =>
      simp [encodeSlot, hx e rfl]

@[simp] theorem length_header (entries now w : Nat) : (Builder.header entries now w).length = 4 :=
  rfl

theorem getD_map_isSome (slots : Slots) (j : Nat) :
    (slots.map Option.isSome).getD j false = occOf slots j := by
  rw [occOf, List.getD_eq_getElem?_getD, List.getElem?_map, List.getD_eq_getElem?_getD]
  cases slots[j]? with
  | none => rfl
  | some x => rfl

/-! ### The builder refines the abstract table -/

/-- Every entry a table holds has a `w`-byte bitmap. -/
def SlotsFit (w : Nat) (slots : Slots) : Prop :=
  ∀ x ∈ slots, ∀ e, x = some e → e.2.length = w

theorem slotsFit_set {w : Nat} {slots : Slots} (h : SlotsFit w slots) {j : Nat}
    {e : UInt32 × List UInt8} (he : e.2.length = w) : SlotsFit w (slots.set j (some e)) := by
  intro x hx e' hxe
  rcases List.mem_or_eq_of_mem_set hx with hmem | heq
  · exact h x hmem e' hxe
  · rw [heq] at hxe
    cases hxe
    exact he

/-- The constructor lays out the empty table. -/
theorem init_eq_realize {entries m w : Nat} (hnow : offsetWidth m < 8) (hw : w < 2 ^ 13)
    (hn : entries < 2 ^ 16) :
    Builder.init entries m w = some (realize (offsetWidth m) w (List.replicate entries none)) := by
  have hcond : offsetWidth m < 1 <<< 3 ∧ w < 1 <<< 13 ∧ entries < 1 <<< 16 := ⟨hnow, hw, hn⟩
  -- The zeroed table is four header bytes and then one zero record per slot.
  have htable : List.replicate ((offsetWidth m + w) * entries + 4) (0 : UInt8) =
      List.replicate 4 0 ++ List.replicate ((offsetWidth m + w) * entries) 0 := by
    rw [List.replicate_append_replicate, Nat.add_comm]
  simp only [Builder.init, if_pos hcond, htable]
  rw [writeBytes_front (List.replicate 4 0) _ (Builder.header entries (offsetWidth m) w) rfl]
  simp [realize, encodeSlot, List.map_replicate, Nat.mul_comm]

/-- The two writes of `AddEntry` lay out the new record in its slot. -/
theorem setReferences_setNativeOffset {now w j : Nat} {slots : Slots} {o : UInt32}
    {refs : List UInt8} (hfit : SlotsFit w slots) (hj : j < slots.length)
    (hrefs : refs.length = w) :
    Builder.setReferences ((realize now w slots).setNativeOffset j o) (realize now w slots) j refs =
      Builder.header slots.length now w ++
        ((slots.set j (some (o, refs))).map (encodeSlot now w)).flatten := by
  have hlen : ∀ r ∈ slots.map (encodeSlot now w), r.length = now + w := by
    intro r hr
    rcases List.mem_map.mp hr with ⟨x, hx, rfl⟩
    exact length_encodeSlot (hfit x hx)
  have hrec : (leEncode now o.toNat ++ refs.take w).length = now + w := by
    simp [hrefs]
  -- The offset's bytes and the bitmap are one write of the whole record.
  have hwhole : ∀ (t : List UInt8) (off : Nat), writeBytes (writeBytes t off (leEncode now o.toNat))
      (off + now) (refs.take w) = writeBytes t off (leEncode now o.toNat ++ refs.take w) := by
    intro t off
    rw [writeBytes_append, length_leEncode]
  simp only [Builder.setReferences, Builder.setNativeOffset, realize, Builder.entryWidth]
  rw [foldl_set_shift, hwhole, Nat.add_comm _ 4, ← length_header slots.length now w,
    writeBytes_append_chunks _ _ _ _ _ hlen (by simpa using hj) hrec, List.map_set]
  rfl

/-- `AddEntry` on a laid-out table is the abstract insertion, laid out. -/
theorem addEntry_realize {now w : Nat} {slots : Slots} {o : UInt32} {refs : List UInt8}
    (hfit : SlotsFit w slots) (hrefs : refs.length = w) :
    (realize now w slots).addEntry o refs = (insertSlot slots (o, refs)).map (realize now w) := by
  -- The builder's test for a free slot is the abstract one.
  have hprobe : probe (fun j => !(realize now w slots).inUse.getD j false)
      (realize now w slots).entries (realize now w slots).entries
      ((realize now w slots).tableIndex o) =
      probe (fun j => !occOf slots j) slots.length slots.length (homeHash o.toNat % slots.length) := by
    simp only [realize, Builder.tableIndex, getD_map_isSome, homeHash_toNat]
  unfold Builder.addEntry insertSlot
  rw [hprobe]
  cases hp : probe (fun j => !occOf slots j) slots.length slots.length
      (homeHash o.toNat % slots.length) with
  | none => rfl
  | some j =>
      have hpos : 0 < slots.length := by
        rcases Nat.eq_zero_or_pos slots.length with h | h
        · rw [h] at hp
          simp at hp
        · exact h
      have hj : j < slots.length := by
        rcases (probe_eq_some_iff _ (Nat.mod_lt _ hpos)).mp hp with ⟨i, -, rfl, -⟩
        exact Nat.mod_lt _ hpos
      dsimp only
      rw [Option.map_some, setReferences_setNativeOffset hfit hj hrefs]
      simp [realize, List.map_set]

/-- Adding a list of entries to a laid-out table is inserting them into the
    abstract table, laid out. -/
theorem foldlM_addEntry_realize {now w : Nat} (es : List (UInt32 × List UInt8))
    (hes : ∀ e ∈ es, e.2.length = w) {slots : Slots} (hfit : SlotsFit w slots) :
    es.foldlM (fun b e => b.addEntry e.1 e.2) (realize now w slots) =
      (es.foldlM insertSlot slots).map (realize now w) := by
  induction es generalizing slots with
  | nil => rfl
  | cons e es ih =>
      have he : e.2.length = w := hes e (by simp)
      rw [List.foldlM_cons, List.foldlM_cons, addEntry_realize hfit he]
      cases hins : insertSlot slots (e.1, e.2) with
      | none => rfl
      | some slots' =>
          -- The inserted table is `slots` with the entry in one slot.
          have hfit' : SlotsFit w slots' := by
            unfold insertSlot at hins
            rcases Option.map_eq_some_iff.mp hins with ⟨j, -, rfl⟩
            exact slotsFit_set hfit he
          simp only [Option.map_some, Option.bind_eq_bind, Option.bind_some]
          exact ih (fun e' he' => hes e' (by simp [he'])) hfit'

/-! ### The abstract table's invariant -/

/-- What holds of the abstract table once the entries `es` are inserted: the
    probing invariants of `Core.Probe`, every entry in some slot, only those
    entries in slots, and one occupied slot per entry. -/
structure TableInv (slots : Slots) (es : List (UInt32 × List UInt8)) : Prop where
  paths : PathsOccupied homeHash slots.length (occOf slots) (keyOf slots)
  distinct : KeysDistinct slots.length (occOf slots) (keyOf slots)
  held : ∀ e ∈ es, ∃ j < slots.length, slots.getD j none = some e
  only : ∀ j e, slots.getD j none = some e → e ∈ es
  count : slots.countP Option.isSome = es.length

theorem tableInv_empty (n : Nat) : TableInv (List.replicate n none) [] where
  paths := fun j _ hocc => by simp [occOf] at hocc
  distinct := fun j₁ _ _ _ hocc => by simp [occOf] at hocc
  held := fun e he => by simp at he
  only := fun j e h => by
    rw [List.getD_eq_getElem?_getD, List.getElem?_replicate] at h
    split at h <;> simp at h
  count := by simp

/-- A free slot exists while fewer entries than slots are held. -/
theorem exists_free {slots : Slots} {es : List (UInt32 × List UInt8)} (hinv : TableInv slots es)
    (hroom : es.length < slots.length) : ¬ ∀ j < slots.length, occOf slots j = true := by
  intro hall
  have hfull : slots.countP Option.isSome = slots.length := by
    rw [List.countP_eq_length]
    intro x hx
    rcases List.mem_iff_getElem.mp hx with ⟨j, hj, rfl⟩
    have := hall j hj
    rwa [occOf, List.getD_eq_getElem?_getD, List.getElem?_eq_getElem hj, Option.getD_some] at this
  rw [hinv.count] at hfull
  omega

/-- One step of the abstract builder: a new offset is inserted while there is
    room, and the invariant holds of the larger table. -/
theorem insertSlot_inv {slots : Slots} {es : List (UInt32 × List UInt8)}
    {e : UInt32 × List UInt8} (hinv : TableInv slots es) (hnew : e.1 ∉ es.map Prod.fst)
    (hroom : es.length < slots.length) :
    ∃ slots', insertSlot slots e = some slots' ∧ slots'.length = slots.length ∧
      TableInv slots' (es ++ [e]) := by
  have hpos : 0 < slots.length := by omega
  have hhome : homeHash e.1.toNat % slots.length < slots.length := Nat.mod_lt _ hpos
  -- The search for a free slot succeeds, since not every slot is occupied.
  cases hp : probe (fun j => !occOf slots j) slots.length slots.length
      (homeHash e.1.toNat % slots.length) with
  | none =>
      have hall := (probe_eq_none_iff hhome).mp hp
      exact absurd (fun j hj => by simpa using hall j hj) (exists_free hinv hroom)
  | some j =>
      rcases (probe_eq_some_iff _ hhome).mp hp with ⟨i, -, hjeq, hfree, -⟩
      have hj : j < slots.length := by
        rw [hjeq]
        exact Nat.mod_lt _ hpos
      have hfree' : occOf slots j = false := by simpa using hfree
      have hnone : slots.getD j none = none := by
        simpa [occOf] using hfree'
      refine ⟨slots.set j (some e), by simp only [insertSlot, hp, Option.map_some],
        List.length_set, ?_⟩
      constructor
      · rw [occOf_set hj, keyOf_set hj, List.length_set]
        exact pathsOccupied_insert hinv.paths hp
      · rw [occOf_set hj, keyOf_set hj, List.length_set]
        refine keysDistinct_insert hinv.distinct hfree' (fun j' hj' hocc' hkey => ?_)
        -- An occupied slot holds an old entry, whose offset differs from the new one.
        cases hx : slots.getD j' none with
        | none =>
            rw [occOf, hx] at hocc'
            cases hocc'
        | some e' =>
            have hmem := hinv.only j' e' hx
            rw [keyOf, hx] at hkey
            have hsame : e'.1 = e.1 := UInt32.toNat_inj.mp hkey
            exact hnew (List.mem_map.mpr ⟨e', hmem, hsame⟩)
      · intro e' he'
        rcases List.mem_append.mp he' with hold | hthis
        · rcases hinv.held e' hold with ⟨j', hj', hx⟩
          have hne : j ≠ j' := fun h => by rw [h, hx] at hnone; cases hnone
          exact ⟨j', by simpa using hj', by rw [getD_set_none, if_neg (fun h => hne h.1), hx]⟩
        · rw [List.mem_singleton.mp hthis]
          exact ⟨j, by simpa using hj, by rw [getD_set_none, if_pos ⟨rfl, hj⟩]⟩
      · intro j' e' hx
        rw [getD_set_none] at hx
        split at hx
        · cases hx
          simp
        · exact List.mem_append_left _ (hinv.only j' e' hx)
      · have hj' : slots[j] = none := by
          simpa [List.getD_eq_getElem?_getD, List.getElem?_eq_getElem hj] using hnone
        rw [List.countP_set hj, hj', hinv.count]
        simp

/-- The abstract builder over a list of distinct offsets that fits the table:
    every insertion succeeds and the invariant holds at the end. -/
theorem foldlM_insertSlot_inv (es : List (UInt32 × List UInt8)) :
    ∀ (slots : Slots) (done : List (UInt32 × List UInt8)), TableInv slots done →
      ((done ++ es).map Prod.fst).Nodup → done.length + es.length ≤ slots.length →
      ∃ slots', es.foldlM insertSlot slots = some slots' ∧ slots'.length = slots.length ∧
        TableInv slots' (done ++ es) := by
  induction es with
  | nil =>
      intro slots done hinv _ _
      exact ⟨slots, rfl, rfl, by simpa using hinv⟩
  | cons e es ih =>
      intro slots done hinv hnodup hroom
      have hnew : e.1 ∉ done.map Prod.fst := by
        intro hmem
        rw [List.map_append, List.map_cons, List.nodup_append] at hnodup
        exact hnodup.2.2 _ hmem _ (by simp) rfl
      rcases insertSlot_inv hinv hnew (by simp at hroom; omega) with ⟨slots₁, hins, hlen₁, hinv₁⟩
      have hnodup₁ : ((done ++ [e] ++ es).map Prod.fst).Nodup := by simpa using hnodup
      rcases ih slots₁ (done ++ [e]) hinv₁ hnodup₁ (by simp at hroom ⊢; omega) with
        ⟨slots₂, hfold, hlen₂, hinv₂⟩
      refine ⟨slots₂, ?_, by rw [hlen₂, hlen₁], by simpa using hinv₂⟩
      rw [List.foldlM_cons, hins]
      exact hfold

/-! ### Widths -/

theorem shiftRight_eight (m : Nat) : m >>> 8 = m / 256 := by
  rw [Nat.shiftRight_eq_div_pow]

theorem lt_pow_offsetWidth (m : Nat) : m < 256 ^ offsetWidth m := by
  induction m using Nat.strong_induction_on with
  | _ m ih =>
      rw [offsetWidth]
      split
      · simp_all
      · -- One more byte covers what the shifted value needs.
        have hlt : m >>> 8 < m := by
          rw [shiftRight_eight]
          omega
        have hih := ih _ hlt
        rw [shiftRight_eight] at hih ⊢
        rw [pow_succ]
        omega

theorem offsetWidth_le {m k : Nat} (h : m < 256 ^ k) : offsetWidth m ≤ k := by
  induction k generalizing m with
  | zero =>
      have hm : m = 0 := by simpa using h
      rw [hm, offsetWidth]
      simp
  | succ k ih =>
      rw [offsetWidth]
      split
      · omega
      · rw [pow_succ] at h
        have hdiv : m >>> 8 < 256 ^ k := by
          rw [shiftRight_eight]
          omega
        have := ih hdiv
        omega

/-- The largest offset, as `CreateNativeGcMap` finds it, bounds every offset. -/
theorem le_foldl_max (es : List (UInt32 × List UInt8)) (a : Nat) :
    a ≤ es.foldl (fun m e => max m e.1.toNat) a ∧
      ∀ e ∈ es, e.1.toNat ≤ es.foldl (fun m e => max m e.1.toNat) a := by
  induction es generalizing a with
  | nil => simp
  | cons e es ih =>
      rcases ih (max a e.1.toNat) with ⟨hge, hall⟩
      refine ⟨le_trans (le_max_left _ _) hge, ?_⟩
      intro e' he'
      rcases List.mem_cons.mp he' with rfl | hmem
      · exact le_trans (le_max_right _ _) hge
      · exact hall e' hmem

theorem foldl_max_lt (es : List (UInt32 × List UInt8)) {a : Nat} (ha : a < 2 ^ 32) :
    es.foldl (fun m e => max m e.1.toNat) a < 2 ^ 32 := by
  induction es generalizing a with
  | nil => exact ha
  | cons e es ih =>
      exact ih (max_lt ha e.1.toNat_lt)

/-! ### Reading a laid-out table -/

/-- A byte below `256` and a shifted byte do not overlap. -/
theorem or_shiftLeft_eight {a b : Nat} (ha : a < 256) : a ||| (b <<< 8) = a + 256 * b := by
  rw [Nat.or_comm, ← Nat.shiftLeft_add_eq_or_of_lt (by simpa using ha), Nat.shiftLeft_eq]
  ring

theorem mask_ff (x : Nat) : x &&& 0xFF = x % 256 :=
  Nat.and_two_pow_sub_one_eq_mod x 8

section Header

variable {now w : Nat} {slots : Slots}

theorem getD_realize_header (i : Nat) (hi : i < 4) :
    (realize now w slots).table.getD i 0 = (Builder.header slots.length now w).getD i 0 := by
  simp only [realize]
  rw [List.getD_eq_getElem?_getD, List.getElem?_append_left (by simpa using hi),
    ← List.getD_eq_getElem?_getD]

theorem numEntries_realize (hn : slots.length < 2 ^ 16) :
    numEntries (realize now w slots).table = slots.length := by
  unfold numEntries
  rw [getD_realize_header 2 (by norm_num), getD_realize_header 3 (by norm_num)]
  simp only [Builder.header, List.getD_cons_succ, List.getD_cons_zero, UInt8.toNat_ofNat',
    mask_ff, Nat.shiftRight_eq_div_pow]
  rw [or_shiftLeft_eight (by omega)]
  omega

/-- Byte 0 of the header: the offset width below the low five bits of the
    reference width. -/
theorem header_byte0 (hnow : now < 8) :
    ((Builder.header slots.length now w).getD 0 0).toNat = now + 8 * (w % 32) := by
  simp only [Builder.header, List.getD_cons_zero, UInt8.toNat_or, UInt8.toNat_ofNat',
    mask_ff, Nat.shiftLeft_eq]
  have h7 : now &&& 7 = now := by
    rw [show (7 : Nat) = 2 ^ 3 - 1 from rfl, Nat.and_two_pow_sub_one_eq_mod, Nat.mod_eq_of_lt hnow]
  have hw8 : w * 2 ^ 3 % 256 % 2 ^ 8 = (w % 32) <<< 3 := by
    rw [Nat.shiftLeft_eq]
    omega
  rw [h7, Nat.mod_eq_of_lt (by omega : now < 2 ^ 8), hw8, Nat.or_comm,
    ← Nat.shiftLeft_add_eq_or_of_lt (by simpa using hnow), Nat.shiftLeft_eq]
  omega

theorem regWidth_realize (hnow : now < 8) (hw : w < 2 ^ 13) :
    regWidth (realize now w slots).table = w := by
  unfold regWidth
  rw [getD_realize_header 0 (by norm_num), getD_realize_header 1 (by norm_num), header_byte0 hnow,
    or_shiftLeft_eight (by omega)]
  simp only [Builder.header, List.getD_cons_succ, List.getD_cons_zero, UInt8.toNat_ofNat',
    mask_ff, Nat.shiftRight_eq_div_pow]
  omega

theorem nativeOffsetWidth_realize (hnow : now < 8) :
    nativeOffsetWidth (realize now w slots).table = now := by
  unfold nativeOffsetWidth
  rw [getD_realize_header 0 (by norm_num), header_byte0 hnow,
    show (7 : Nat) = 2 ^ 3 - 1 from rfl, Nat.and_two_pow_sub_one_eq_mod]
  omega

theorem entryWidth_realize (hnow : now < 8) (hw : w < 2 ^ 13) :
    entryWidth (realize now w slots).table = now + w := by
  rw [entryWidth, nativeOffsetWidth_realize hnow, regWidth_realize hnow hw]

end Header

section Records

variable {now w : Nat} {slots : Slots} {es : List (UInt32 × List UInt8)}

theorem mem_of_getD_eq_some {j : Nat} {e : UInt32 × List UInt8}
    (hx : slots.getD j none = some e) : some e ∈ slots := by
  rw [List.getD_eq_getElem?_getD] at hx
  cases h : slots[j]? with
  | none => rw [h] at hx; cases hx
  | some x =>
      rw [h, Option.getD_some] at hx
      rw [← hx]
      exact List.mem_of_getElem? h

/-- A table that holds only entries with `w`-byte bitmaps fits the layout. -/
theorem slotsFit_of_inv (hinv : TableInv slots es) (hes : EntriesFit now w es) :
    SlotsFit w slots := by
  intro x hx e hxe
  rcases List.mem_iff_getElem.mp hx with ⟨j, hj, hget⟩
  have hgetD : slots.getD j none = some e := by
    rw [List.getD_eq_getElem?_getD, List.getElem?_eq_getElem hj, Option.getD_some, hget, hxe]
  exact (hes e (hinv.only j e hgetD)).2

/-- Slot `j` of a laid-out table, read whole, is its record. -/
theorem readBytes_realize_slot (hfit : SlotsFit w slots) (hnow : now < 8) (hw : w < 2 ^ 13)
    {j : Nat} (hj : j < slots.length) :
    readBytes (realize now w slots).table (4 + j * entryWidth (realize now w slots).table)
      (now + w) = some (encodeSlot now w (slots.getD j none)) := by
  have hlen : ∀ r ∈ slots.map (encodeSlot now w), r.length = now + w := by
    intro r hr
    rcases List.mem_map.mp hr with ⟨x, hx, rfl⟩
    exact length_encodeSlot (hfit x hx)
  rw [entryWidth_realize hnow hw]
  have hchunk := readBytes_append_chunks (Builder.header slots.length now w)
    (slots.map (encodeSlot now w)) (now + w) j hlen (by simpa using hj)
  rw [length_header] at hchunk
  simp only [realize]
  rw [hchunk, List.getElem_map, List.getD_eq_getElem?_getD, List.getElem?_eq_getElem hj,
    Option.getD_some]

/-- The reader's offset of every slot is the abstract table's key. -/
theorem getNativePcOffset_realize (hinv : TableInv slots es) (hes : EntriesFit now w es)
    (hnow : now < 8) (hw : w < 2 ^ 13) {j : Nat} (hj : j < slots.length) :
    getNativePcOffset (realize now w slots).table j = keyOf slots j := by
  have hfit := slotsFit_of_inv hinv hes
  have hslot := readBytes_realize_slot hfit hnow hw hj
  have hin : 4 + j * entryWidth (realize now w slots).table + (now + w) ≤
      (realize now w slots).table.length := (readBytes_isSome_iff _ _ _).mp (by rw [hslot]; rfl)
  unfold getNativePcOffset
  rw [nativeOffsetWidth_realize hnow, foldl_or_shift _ _ _ (by omega),
    take_of_readBytes hslot (by omega)]
  -- A free slot reads as zero; an occupied one as its offset.
  cases hx : slots.getD j none with
  | none =>
      rw [keyOf_of_getD_none hx, encodeSlot, List.take_replicate, leDecode_replicate_zero]
  | some e =>
      have hlt := (hes e (hinv.only j e hx)).1
      rw [encodeSlot, List.take_left' (length_leEncode now _), leDecode_leEncode_of_lt hlt,
        keyOf_of_getD_some hx]

/-- Every slot of a table holding as many entries as slots is occupied. -/
theorem occOf_of_full (hinv : TableInv slots es) (hfull : es.length = slots.length) {j : Nat}
    (hj : j < slots.length) : occOf slots j = true := by
  have hall := List.countP_eq_length.mp (hinv.count.trans hfull)
  rw [occOf, List.getD_eq_getElem?_getD, List.getElem?_eq_getElem hj, Option.getD_some]
  exact hall _ (List.getElem_mem hj)

/-- `FindBitMap` of a held offset stops at its slot. -/
theorem findBitMap_realize (hinv : TableInv slots es) (hes : EntriesFit now w es)
    (hnow : now < 8) (hw : w < 2 ^ 13) (hn : slots.length < 2 ^ 16) {j : Nat}
    {e : UInt32 × List UInt8} (hj : j < slots.length) (hx : slots.getD j none = some e) :
    findBitMap (realize now w slots).table e.1 = some (getBitMap (realize now w slots).table j) := by
  have hpos : 0 < slots.length := by omega
  have hocc : occOf slots j = true := occOf_of_getD hx
  have hkey : keyOf slots j = e.1.toNat := keyOf_of_getD_some hx
  -- The reader's test is the abstract key comparison on every slot.
  have htest : ∀ i < slots.length, (getNativePcOffset (realize now w slots).table i == e.1.toNat) =
      decide (keyOf slots i = keyOf slots j) := by
    intro i hi
    rw [getNativePcOffset_realize hinv hes hnow hw hi, hkey]
    exact beq_eq_decide _ _
  unfold findBitMap
  dsimp only
  rw [numEntries_realize hn, probe_congr htest _ (Nat.mod_lt _ hpos), ← homeHash_toNat, ← hkey,
    probe_key (keyOf slots) hinv.paths hinv.distinct (fun _ _ _ => rfl) hj hocc]
  rfl

/-- The bitmap `FindBitMap` points at is the entry's own. -/
theorem readBytes_getBitMap (hfit : SlotsFit w slots) (hnow : now < 8) (hw : w < 2 ^ 13)
    {j : Nat} {e : UInt32 × List UInt8} (hj : j < slots.length) (hx : slots.getD j none = some e) :
    readBytes (realize now w slots).table (getBitMap (realize now w slots).table j) w = some e.2 := by
  have hlen : e.2.length = w := hfit _ (mem_of_getD_eq_some hx) e rfl
  have hslot := readBytes_realize_slot hfit hnow hw hj
  rw [hx, encodeSlot, List.take_of_length_le (le_of_eq hlen)] at hslot
  have hsplit := @readBytes_split _ (leEncode now e.1.toNat) e.2 _
    (by rw [length_leEncode, hlen]; exact hslot)
  rw [length_leEncode, hlen] at hsplit
  rw [getBitMap, nativeOffsetWidth_realize hnow]
  exact hsplit

/-- `HasEntry` on a full table: some entry has the offset. -/
theorem hasEntry_realize (hinv : TableInv slots es) (hes : EntriesFit now w es)
    (hnow : now < 8) (hw : w < 2 ^ 13) (hn : slots.length < 2 ^ 16)
    (hfull : es.length = slots.length) (o : Nat) :
    hasEntry (realize now w slots).table o = decide (∃ e ∈ es, e.1.toNat = o) := by
  unfold hasEntry
  rw [numEntries_realize hn, Bool.eq_iff_iff, List.any_eq_true, decide_eq_true_iff]
  constructor
  · rintro ⟨i, hi, hmatch⟩
    have hi' : i < slots.length := List.mem_range.mp hi
    rw [beq_iff_eq, getNativePcOffset_realize hinv hes hnow hw hi'] at hmatch
    -- The slot is occupied, by an entry of the list with that offset.
    have hocc := occOf_of_full hinv hfull hi'
    cases hx : slots.getD i none with
    | none =>
        rw [occOf_of_getD hx] at hocc
        cases hocc
    | some e =>
        exact ⟨e, hinv.only i e hx, by rw [← hmatch, keyOf_of_getD_some hx]⟩
  · rintro ⟨e, he, rfl⟩
    rcases hinv.held e he with ⟨j, hj, hx⟩
    refine ⟨j, List.mem_range.mpr hj, ?_⟩
    rw [beq_iff_eq, getNativePcOffset_realize hinv hes hnow hw hj, keyOf_of_getD_some hx]

end Records

/-! ### The finished table -/

/-- `CreateNativeGcMap` on distinct offsets lays out a full abstract table
    whose paths are occupied, with offsets in as many bytes as the largest
    needs. -/
theorem build_eq_realize (es : List (UInt32 × List UInt8)) (w : Nat)
    (hlen : es.length < 2 ^ 16) (hw : w < 2 ^ 13) (hnodup : (es.map Prod.fst).Nodup)
    (hrefs : ∀ e ∈ es, e.2.length = w) :
    ∃ now slots, now < 8 ∧ EntriesFit now w es ∧ slots.length = es.length ∧
      TableInv slots es ∧ build es w = some (realize now w slots).table := by
  let m := es.foldl (fun m e => max m e.1.toNat) 0
  have hm : m < 256 ^ 4 := foldl_max_lt es (by norm_num)
  have hnow : offsetWidth m < 8 := by
    have := offsetWidth_le hm
    omega
  -- Every offset is at most the largest, which its width holds.
  have hfits : EntriesFit (offsetWidth m) w es := fun e he =>
    ⟨lt_of_le_of_lt ((le_foldl_max es 0).2 e he) (lt_pow_offsetWidth m), hrefs e he⟩
  rcases foldlM_insertSlot_inv es (List.replicate es.length none) [] (tableInv_empty _)
      (by simpa using hnodup) (by simp) with ⟨slots, hfold, hslen, hinv⟩
  have hempty : SlotsFit w (List.replicate es.length none) := by
    intro x hx e hxe
    rw [List.eq_of_mem_replicate hx] at hxe
    cases hxe
  refine ⟨offsetWidth m, slots, hnow, hfits, by simpa using hslen, by simpa using hinv, ?_⟩
  simp only [build]
  rw [init_eq_realize hnow hw hlen, Option.bind_eq_bind, Option.bind_some,
    foldlM_addEntry_realize es hrefs hempty, hfold]
  rfl

/-- Encode/decode agreement of the native-PC reference map: after building
    from entries with distinct offsets, the reader sees every entry's count
    and width, `FindBitMap` of each listed offset stops at exactly that
    entry's bitmap, and `HasEntry` holds of exactly the listed offsets. -/
theorem build_findBitMap (es : List (UInt32 × List UInt8)) (w : Nat)
    (hlen : es.length < 2 ^ 16) (hw : w < 2 ^ 13) (hnodup : (es.map Prod.fst).Nodup)
    (hrefs : ∀ e ∈ es, e.2.length = w) :
    ∃ table, build es w = some table ∧ numEntries table = es.length ∧ regWidth table = w ∧
      (∀ e ∈ es, hasEntry table e.1.toNat = true ∧
        ∃ p, findBitMap table e.1 = some p ∧ readBytes table p w = some e.2) ∧
      ∀ o : Nat, (∀ e ∈ es, e.1.toNat ≠ o) → hasEntry table o = false := by
  rcases build_eq_realize es w hlen hw hnodup hrefs with
    ⟨now, slots, hnow, hfits, hslen, hinv, hbuild⟩
  have hn : slots.length < 2 ^ 16 := by omega
  have hfit := slotsFit_of_inv hinv hfits
  refine ⟨_, hbuild, by rw [numEntries_realize hn, hslen], regWidth_realize hnow hw, ?_, ?_⟩
  · intro e he
    rcases hinv.held e he with ⟨j, hj, hx⟩
    refine ⟨?_, _, findBitMap_realize hinv hfits hnow hw hn hj hx,
      readBytes_getBitMap hfit hnow hw hj hx⟩
    rw [hasEntry_realize hinv hfits hnow hw hn hslen.symm, decide_eq_true_iff]
    exact ⟨e, he, rfl⟩
  · intro o ho
    rw [hasEntry_realize hinv hfits hnow hw hn hslen.symm, decide_eq_false_iff_not]
    rintro ⟨e, he, heq⟩
    exact ho e he heq

/-- The theorem at three entries whose offsets need three bytes. -/
theorem build_findBitMap_three :
    [((5 : UInt32), [1]), (300, [2]), (70000, [3])].length < 2 ^ 16 ∧ 1 < 2 ^ 13 ∧
      ([((5 : UInt32), [1]), (300, [2]), (70000, [3])].map Prod.fst).Nodup ∧
      (∀ e ∈ [((5 : UInt32), [(1 : UInt8)]), (300, [2]), (70000, [3])], e.2.length = 1) ∧
      ∃ table, build [(5, [1]), (300, [2]), (70000, [3])] 1 = some table ∧
        numEntries table = 3 ∧ regWidth table = 1 ∧
        (∀ e ∈ [((5 : UInt32), [(1 : UInt8)]), (300, [2]), (70000, [3])],
          hasEntry table e.1.toNat = true ∧
          ∃ p, findBitMap table e.1 = some p ∧ readBytes table p 1 = some e.2) ∧
        ∀ o : Nat, (∀ e ∈ [((5 : UInt32), [(1 : UInt8)]), (300, [2]), (70000, [3])],
          e.1.toNat ≠ o) → hasEntry table o = false :=
  ⟨by decide, by decide, by decide, by decide,
    build_findBitMap _ 1 (by decide) (by decide) (by decide) (by decide)⟩

end NativeGcMap

end ArtRuntime
