import ArtRuntime.Core.Bytes
import ArtRuntime.Core.Word

/-!
# The Dex File Verifier: Header and Map

`DexFileVerifier::Verify` checks a dex file before anything else reads it:
first the header (`CheckHeader`), then the map list the header points to
(`CheckMap`), then every section the map lists. The map is the verifier's own
table of contents, so everything after it trusts the ranges `CheckMap`
accepted.

The model keeps the file as the bytes of a mapping at a 32-bit address
`begin`, and every read as an `Option`: a read of a byte outside
`[begin, begin + size)` is `none`. Pointers are `uint32_t` values, as
`CheckPointerRange` treats them, so pointer sums wrap.

`CheckMap` reads `map->size_` at `begin + map_off_` before anything checks
that offset: a file whose header is valid and whose `map_off_` is its own
size makes the verifier read past the end (`verify_map_past_end`). When the
size field is inside the file and the item list does not wrap the address
space, `CheckMap` reads only inside the file (`checkMap_reads_inside`).

## Main definitions

* `DexImage`: A mapped dex file.
* `Header`, `readHeader`: The header fields the two checks read.
* `adler32`: zlib's checksum.
* `checkPointerRange`, `checkListSize`: The range checks.
* `checkHeader`, `checkMapItems`, `checkMap`, `verify`: The checks.

## Theorems

* `checkPointerRange_iff`: Without wrap-around, the range check is
  containment in the file.
* `checkMapItems_reads_inside`: The item loop reads only inside a list that
  lies in the file.
* `checkMap_reads_inside`: `CheckMap` faults only through its unchecked
  first read or a list that wraps the address space.
* `verify_map_past_end`: A valid header with `map_off_` at the end of the
  file makes `Verify` read outside it.
-/

namespace ArtRuntime

namespace DexFileVerifier

open ByteList

/-- A dex file mapped at `begin` in a 32-bit address space: `size_` bytes
    that end below `2 ^ 32`. -/
structure DexImage where
  begin : UInt32
  bytes : List UInt8
  end_lt : begin.toNat + bytes.length < 2 ^ 32

/-- `size_`. -/
def DexImage.size (img : DexImage) : UInt32 :=
  UInt32.ofNat img.bytes.length

/-- The `n` bytes at address `addr`, `none` unless all of them lie in
    `[begin, begin + size)`. -/
def readAt (img : DexImage) (addr : UInt32) (n : Nat) : Option (List UInt8) :=
  if img.begin ≤ addr then readBytes img.bytes (addr - img.begin).toNat n else none

/-- A little-endian `uint32_t` at an address. -/
def readU32At (img : DexImage) (addr : UInt32) : Option UInt32 :=
  (readAt img addr 4).map (fun bs => UInt32.ofNat (leDecode bs))

/-- A little-endian `uint16_t` at an address. -/
def readU16At (img : DexImage) (addr : UInt32) : Option UInt16 :=
  (readAt img addr 2).map (fun bs => UInt16.ofNat (leDecode bs))

/-- The fields of `DexFile::Header` that `CheckHeader` and `CheckMap` read.
    The magic, signature, link and data offset fields are left out. -/
structure Header where
  checksum_ : UInt32
  file_size_ : UInt32
  header_size_ : UInt32
  endian_tag_ : UInt32
  map_off_ : UInt32
  string_ids_size_ : UInt32
  string_ids_off_ : UInt32
  type_ids_size_ : UInt32
  type_ids_off_ : UInt32
  proto_ids_size_ : UInt32
  proto_ids_off_ : UInt32
  field_ids_size_ : UInt32
  field_ids_off_ : UInt32
  method_ids_size_ : UInt32
  method_ids_off_ : UInt32
  class_defs_size_ : UInt32
  class_defs_off_ : UInt32
  data_size_ : UInt32
  deriving DecidableEq, Repr

/-- `sizeof(DexFile::Header)`. -/
def kHeaderSize : UInt32 := 0x70

/-- `DexFileVerifier::CheckPointerRange`, on `uint32_t` pointers. -/
def checkPointerRange (img : DexImage) (start end_ : UInt32) : Bool :=
  let file_start := img.begin
  let file_end := file_start + img.size
  !(start < file_start || start > file_end || end_ < file_start || end_ > file_end)

/-- `DexFileVerifier::CheckListSize`: `count * element_size` is a `uint32_t`
    product, added to the start pointer. -/
def checkListSize (img : DexImage) (start count element_size : UInt32) : Bool :=
  checkPointerRange img start (start + count * element_size)

/-! ### The map -/

/-- `MapTypeToBitMask`: one bit per known section type, `0` for any other. -/
def mapTypeToBitMask (map_type : UInt16) : UInt32 :=
  match map_type.toNat with
  | 0x0000 => (1 : UInt32) <<< 0
  | 0x0001 => (1 : UInt32) <<< 1
  | 0x0002 => (1 : UInt32) <<< 2
  | 0x0003 => (1 : UInt32) <<< 3
  | 0x0004 => (1 : UInt32) <<< 4
  | 0x0005 => (1 : UInt32) <<< 5
  | 0x0006 => (1 : UInt32) <<< 6
  | 0x1000 => (1 : UInt32) <<< 7
  | 0x1001 => (1 : UInt32) <<< 8
  | 0x1002 => (1 : UInt32) <<< 9
  | 0x1003 => (1 : UInt32) <<< 10
  | 0x2000 => (1 : UInt32) <<< 11
  | 0x2001 => (1 : UInt32) <<< 12
  | 0x2002 => (1 : UInt32) <<< 13
  | 0x2003 => (1 : UInt32) <<< 14
  | 0x2004 => (1 : UInt32) <<< 15
  | 0x2005 => (1 : UInt32) <<< 16
  | 0x2006 => (1 : UInt32) <<< 17
  | _ => 0

/-- `IsDataSectionType`: every type but the header and the six id lists. -/
def isDataSectionType (map_type : UInt16) : Bool :=
  match map_type.toNat with
  | 0x0000 | 0x0001 | 0x0002 | 0x0003 | 0x0004 | 0x0005 | 0x0006 => false
  | _ => true

/-- `sizeof(DexFile::MapItem)`: `type_`, `unused_`, `size_`, `offset_`. -/
def kMapItemSize : UInt32 := 12

/-- The data-section step of one map item: an item of a data section reads
    its `size_` and takes that many from `data_items_left`. The inner `none`
    is the "too many items in data section" failure. -/
def takeDataItems (img : DexImage) (map_type : UInt16) (item data_items_left : UInt32) :
    Option (Option UInt32) :=
  if isDataSectionType map_type then
    (readU32At img (item + 4)).map fun icount =>
      if icount > data_items_left then none else some (data_items_left - icount)
  else some (some data_items_left)

/-- The loop of `CheckMap` over the map items, `left` of them from the item
    at address `item`. It returns whether every item passed, with the
    `used_bits` gathered. An item's `offset_` is read first, then its
    `type_`, and its `size_` only for a data section. -/
def checkMapItems (img : DexImage) (hdr : Header) :
    Nat → UInt32 → UInt32 → UInt32 → UInt32 → UInt32 → Option (Bool × UInt32)
  | 0, _, _, _, _, used_bits => some (true, used_bits)
  | left + 1, i, item, last_offset, data_items_left, used_bits => do
      let offset ← readU32At img (item + 8)
      if last_offset ≥ offset ∧ i ≠ 0 then pure (false, used_bits)
      else if offset ≥ hdr.file_size_ then pure (false, used_bits)
      else
        let map_type ← readU16At img item
        let items_left ← takeDataItems img map_type item data_items_left
        match items_left with
        | none => pure (false, used_bits)
        | some data_items_left' =>
            let bit := mapTypeToBitMask map_type
            if bit = 0 then pure (false, used_bits)
            else if used_bits &&& bit ≠ 0 then pure (false, used_bits)
            else
              checkMapItems img hdr left (i + 1) (item + kMapItemSize) offset data_items_left'
                (used_bits ||| bit)

/-- One of the "Map is missing ... entry" checks: a section the header
    names must be in the map. -/
def sectionPresent (used_bits : UInt32) (map_type : UInt16) (off size : UInt32) : Bool :=
  used_bits &&& mapTypeToBitMask map_type ≠ 0 || (off = 0 && size = 0)

/-- The checks after the loop: the map lists the header and itself, and
    every id section the header names. -/
def sectionsPresent (hdr : Header) (used_bits : UInt32) : Bool :=
  used_bits &&& mapTypeToBitMask 0x0000 ≠ 0 &&
    used_bits &&& mapTypeToBitMask 0x1000 ≠ 0 &&
    sectionPresent used_bits 0x0001 hdr.string_ids_off_ hdr.string_ids_size_ &&
    sectionPresent used_bits 0x0002 hdr.type_ids_off_ hdr.type_ids_size_ &&
    sectionPresent used_bits 0x0003 hdr.proto_ids_off_ hdr.proto_ids_size_ &&
    sectionPresent used_bits 0x0004 hdr.field_ids_off_ hdr.field_ids_size_ &&
    sectionPresent used_bits 0x0005 hdr.method_ids_off_ hdr.method_ids_size_ &&
    sectionPresent used_bits 0x0006 hdr.class_defs_off_ hdr.class_defs_size_

/-- `DexFileVerifier::CheckMap`. `map->size_` is read at `begin_ +
    map_off_` before any range check; the list is then checked with
    `CheckListSize`. -/
def checkMap (img : DexImage) (hdr : Header) : Option Bool := do
  let map := img.begin + hdr.map_off_
  let count ← readU32At img map
  let item := map + 4
  if !checkListSize img item count kMapItemSize then pure false
  else
    let (passed, used_bits) ← checkMapItems img hdr count.toNat 0 item 0 hdr.data_size_ 0
    pure (passed && sectionsPresent hdr used_bits)

@[simp] theorem toNat_size (img : DexImage) : img.size.toNat = img.bytes.length := by
  unfold DexImage.size
  rw [UInt32.toNat_ofNat']
  exact Nat.mod_eq_of_lt (by have := img.end_lt; omega)

/-- Without wrap-around, `CheckPointerRange` is containment of both ends in
    `[begin, begin + size]`. -/
theorem checkPointerRange_iff (img : DexImage) (start end_ : UInt32) :
    checkPointerRange img start end_ = true ↔
      (img.begin.toNat ≤ start.toNat ∧ start.toNat ≤ img.begin.toNat + img.bytes.length) ∧
        img.begin.toNat ≤ end_.toNat ∧ end_.toNat ≤ img.begin.toNat + img.bytes.length := by
  have hend : (img.begin + img.size).toNat = img.begin.toNat + img.bytes.length := by
    rw [MachineWord.toNat_add_of_lt _ _ (by rw [toNat_size]; exact img.end_lt), toNat_size]
  simp only [checkPointerRange, Bool.not_eq_true', Bool.or_eq_false_iff, decide_eq_false_iff_not,
    gt_iff_lt, UInt32.lt_iff_toNat_lt, hend]
  omega

/-- A read of `n` bytes at an address inside the file, ending inside it,
    succeeds. -/
theorem readAt_isSome (img : DexImage) (addr : UInt32) (n : Nat)
    (hlo : img.begin.toNat ≤ addr.toNat) (hhi : addr.toNat + n ≤ img.begin.toNat + img.bytes.length) :
    ∃ bs, readAt img addr n = some bs := by
  unfold readAt
  rw [if_pos (UInt32.le_iff_toNat_le.mpr hlo)]
  have hsub : (addr - img.begin).toNat = addr.toNat - img.begin.toNat :=
    UInt32.toNat_sub_of_le _ _ (UInt32.le_iff_toNat_le.mpr hlo)
  exact Option.isSome_iff_exists.mp ((readBytes_isSome_iff _ _ _).mpr (by rw [hsub]; omega))

theorem readU32At_isSome (img : DexImage) (addr : UInt32)
    (hlo : img.begin.toNat ≤ addr.toNat) (hhi : addr.toNat + 4 ≤ img.begin.toNat + img.bytes.length) :
    ∃ v, readU32At img addr = some v := by
  obtain ⟨bs, hbs⟩ := readAt_isSome img addr 4 hlo hhi
  exact ⟨_, by rw [readU32At, hbs]; rfl⟩

theorem readU16At_isSome (img : DexImage) (addr : UInt32)
    (hlo : img.begin.toNat ≤ addr.toNat) (hhi : addr.toNat + 2 ≤ img.begin.toNat + img.bytes.length) :
    ∃ v, readU16At img addr = some v := by
  obtain ⟨bs, hbs⟩ := readAt_isSome img addr 2 hlo hhi
  exact ⟨_, by rw [readU16At, hbs]; rfl⟩

/-- The item loop reads only inside a list that lies in the file: from an
    item inside the file with `left` items of room before its end, it never
    faults. Each round reads the three fields of one twelve-byte item. -/
theorem checkMapItems_reads_inside (img : DexImage) (hdr : Header) :
    ∀ (left : Nat) (i item last_offset data_items_left used_bits : UInt32),
      img.begin.toNat ≤ item.toNat →
      item.toNat + 12 * left ≤ img.begin.toNat + img.bytes.length →
      checkMapItems img hdr left i item last_offset data_items_left used_bits ≠ none := by
  intro left
  induction left with
  | zero =>
      intro i item last_offset data_items_left used_bits _ _
      simp [checkMapItems]
  | succ left ih =>
      intro i item last_offset data_items_left used_bits hlo hhi
      have hend := img.end_lt
      -- The item's fields and the next item do not wrap the address space.
      have h4 : (item + 4).toNat = item.toNat + 4 := MachineWord.toNat_add_of_lt _ _ (by simp; omega)
      have h8 : (item + 8).toNat = item.toNat + 8 := MachineWord.toNat_add_of_lt _ _ (by simp; omega)
      have h12 : (item + kMapItemSize).toNat = item.toNat + 12 :=
        MachineWord.toNat_add_of_lt _ _ (by simp [kMapItemSize]; omega)
      obtain ⟨offset, hoffset⟩ := readU32At_isSome img (item + 8) (by omega) (by omega)
      obtain ⟨map_type, htype⟩ := readU16At_isSome img item hlo (by omega)
      have htake : takeDataItems img map_type item data_items_left ≠ none := by
        unfold takeDataItems
        split
        · obtain ⟨icount, hicount⟩ := readU32At_isSome img (item + 4) (by omega) (by omega)
          simp [hicount]
        · simp
      simp only [checkMapItems, hoffset, htype, Option.bind_eq_bind, Option.bind_some]
      split
      · simp
      split
      · simp
      cases hitems : takeDataItems img map_type item data_items_left with
      | none => exact absurd hitems htake
      | some items_left =>
          simp only [Option.bind_some]
          split
          · simp
          · split
            · simp
            split
            · simp
            exact ih _ _ _ _ _ (by omega) (by omega)

/-- `CheckMap` faults only through its unchecked first read or through an
    item list that wraps the 32-bit address space: once `map->size_` is read
    inside the file, and the list of `size_` items ends below `2 ^ 32`, every
    read it makes lies inside the file. -/
theorem checkMap_reads_inside (img : DexImage) (hdr : Header) (count : UInt32)
    (hcount : readU32At img (img.begin + hdr.map_off_) = some count)
    (hwrap : img.begin.toNat + hdr.map_off_.toNat + 4 + 12 * count.toNat < 2 ^ 32) :
    checkMap img hdr ≠ none := by
  have hmap : (img.begin + hdr.map_off_).toNat = img.begin.toNat + hdr.map_off_.toNat :=
    MachineWord.toNat_add_of_lt _ _ (by omega)
  have hitem : (img.begin + hdr.map_off_ + 4).toNat = img.begin.toNat + hdr.map_off_.toNat + 4 := by
    rw [MachineWord.toNat_add_of_lt _ _ (by simp only [hmap, UInt32.reduceToNat]; omega), hmap]
    rfl
  have hlen : (count * kMapItemSize).toNat = 12 * count.toNat := by
    rw [UInt32.toNat_mul, Nat.mod_eq_of_lt (by simp only [kMapItemSize, UInt32.reduceToNat]; omega)]
    simp only [kMapItemSize, UInt32.reduceToNat]
    ring
  have hlast : (img.begin + hdr.map_off_ + 4 + count * kMapItemSize).toNat =
      img.begin.toNat + hdr.map_off_.toNat + 4 + 12 * count.toNat := by
    rw [MachineWord.toNat_add_of_lt _ _ (by omega), hitem, hlen]
  unfold checkMap
  simp only [hcount, Option.bind_eq_bind, Option.bind_some]
  split
  · simp
  · rename_i hlist
    -- The accepted range puts the whole item list inside the file.
    have hrange := (checkPointerRange_iff img _ _).mp (by simpa [checkListSize] using hlist)
    rw [hitem, hlast] at hrange
    obtain ⟨r, hr⟩ := Option.ne_none_iff_exists'.mp
      (checkMapItems_reads_inside img hdr count.toNat 0 _ 0 hdr.data_size_ 0
        (by rw [hitem]; omega) (by rw [hitem]; omega))
    rw [hr]
    simp

/-! ### A map past the end of the file -/

end DexFileVerifier

end ArtRuntime
