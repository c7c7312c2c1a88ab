import ArtRuntime.Core.Bytes

/-!
# The Zip Central Directory

`ZipArchive::Parse` walks the central directory of an APK or jar, which
`MapCentralDirectory` has mapped, and records each entry's name with a
pointer to its record. The `ZipEntry` accessors later read the record's
fixed fields through that pointer. A record is `kCDELen` bytes of fixed
fields, then the name, the extra field and the comment, whose lengths the
fixed fields give; the entry count comes from the end-of-directory record,
separately from the directory itself.

The model keeps the directory as its bytes and every read as an `Option`,
`none` for a byte outside the directory. `Parse` reads a record's signature
before it checks that the record fits, so an entry count larger than the
records present makes it read past the end
(`parse_overstated_count`). Every entry it stores is nevertheless a whole
record inside the directory (`parse_entryInDir`), so the accessors of every
entry `Find` returns read inside it (`find_fields_inside`).

## Main definitions

* `le16ToHost`, `le32ToHost`, `memchr`: The reads.
* `DirEntries`, `put`, `find`: `dir_entries_`.
* `checkRecord`, `parseLoop`, `parse`: `ZipArchive::Parse`.
* `cdeField` and the `ZipEntry` accessors.
* `EntryInDir`: An entry whose record and name lie in the directory.

## Theorems

* `checkRecord_accept`: A record a round accepts is whole and keyed by its
  name.
* `parseLoop_entryInDir`: Every round keeps the stored entries whole.
* `parse_entryInDir`: Every entry of a parsed directory is a whole record.
* `find_fields_inside`: The accessors of a found entry read inside the
  directory.
* `parse_overstated_count`: One record and a count of two make `Parse` read
  past the end.
-/

namespace ArtRuntime

namespace ZipArchive

open ByteList

def kCDESignature : Nat := 0x02014b50
def kCDELen : Nat := 46
def kCDEGPBFlags : Nat := 8
def kCDEMethod : Nat := 10
def kCDECRC : Nat := 16
def kCDECompLen : Nat := 20
def kCDEUncompLen : Nat := 24
def kCDENameLen : Nat := 28
def kCDEExtraLen : Nat := 30
def kCDECommentLen : Nat := 32
def kCDELocalOffset : Nat := 42
def kGPFUnsupportedMask : Nat := 1

/-- `Le16ToHost` at offset `off` of the directory. -/
def le16ToHost (cd : List UInt8) (off : Nat) : Option Nat :=
  readLE cd off 2

/-- `Le32ToHost` at offset `off` of the directory. -/
def le32ToHost (cd : List UInt8) (off : Nat) : Option Nat :=
  readLE cd off 4

/-- `memchr(buf + off, 0, n) != NULL`: the bytes are read in order and the
    scan stops at the first zero. -/
def memchr (buf : List UInt8) (off : Nat) : Nat → Option Bool
  | 0 => some false
  | n + 1 => do
      let b ← buf[off]?
      if b = 0 then pure true else memchr buf (off + 1) n

/-- `dir_entries_`: each name with the offset of its record. -/
abbrev DirEntries := List (List UInt8 × Nat)

/-- `SafeMap::Put`: an insert that keeps the first value of a key. -/
def put (entries : DirEntries) (name : List UInt8) (ptr : Nat) : DirEntries :=
  if entries.any (fun e => e.1 == name) then entries else entries ++ [(name, ptr)]

/-- `ZipArchive::Find`'s lookup in `dir_entries_`. -/
def find (entries : DirEntries) (name : List UInt8) : Option Nat :=
  (entries.find? (fun e => e.1 == name)).map Prod.snd

/-- What one round of `Parse` makes of the record at `ptr`: a failure, or
    the record's name and where the next record starts. -/
inductive RecordCheck
  | reject
  | accept (name : List UInt8) (next : Nat)
  deriving DecidableEq, Repr

/-- The checks of one round of `ZipArchive::Parse`. The signature is read
    before the check that the record's fixed fields fit, and the name is
    scanned before anything checks that it fits. -/
def checkRecord (cd : List UInt8) (dir_offset ptr : Nat) : Option RecordCheck := do
  let signature ← le32ToHost cd ptr
  if signature ≠ kCDESignature then pure .reject
  else if ptr + kCDELen > cd.length then pure .reject
  else
    let local_hdr_offset ← le32ToHost cd (ptr + kCDELocalOffset)
    if local_hdr_offset ≥ dir_offset then pure .reject
    else
      let gpbf ← le16ToHost cd (ptr + kCDEGPBFlags)
      if gpbf &&& kGPFUnsupportedMask ≠ 0 then pure .reject
      else
        let name_len ← le16ToHost cd (ptr + kCDENameLen)
        let extra_len ← le16ToHost cd (ptr + kCDEExtraLen)
        let comment_len ← le16ToHost cd (ptr + kCDECommentLen)
        let has_nul ← memchr cd (ptr + kCDELen) name_len
        if has_nul then pure .reject
        else
          pure (.accept ((cd.drop (ptr + kCDELen)).take name_len)
            (ptr + kCDELen + name_len + extra_len + comment_len))

/-- The loop of `ZipArchive::Parse`, `left` rounds from the record at `ptr`.
    It returns whether every record passed and the entries stored; the
    advance past a record is checked after its entry is stored. -/
def parseLoop (cd : List UInt8) (dir_offset : Nat) :
    Nat → Nat → DirEntries → Option (Bool × DirEntries)
  | 0, _, entries => some (true, entries)
  | left + 1, ptr, entries => do
      match ← checkRecord cd dir_offset ptr with
      | .reject => pure (false, entries)
      | .accept name next =>
          let entries' := put entries name ptr
          if next > cd.length then pure (false, entries')
          else parseLoop cd dir_offset left next entries'

/-- `ZipArchive::Parse` over the mapped directory `cd`, for the
    `num_entries_` and `dir_offset_` the end-of-directory record gave. -/
def parse (cd : List UInt8) (num_entries : UInt16) (dir_offset : Nat) :
    Option (Bool × DirEntries) :=
  parseLoop cd dir_offset num_entries.toNat 0 []

/-- A fixed field of the record at `ptr`, `width` bytes at `field`. -/
def cdeField (cd : List UInt8) (ptr field width : Nat) : Option Nat :=
  readLE cd (ptr + field) width

/-- `ZipEntry::GetCompressionMethod`. -/
def getCompressionMethod (cd : List UInt8) (ptr : Nat) : Option Nat :=
  cdeField cd ptr kCDEMethod 2

/-- `ZipEntry::GetCompressedLength`. -/
def getCompressedLength (cd : List UInt8) (ptr : Nat) : Option Nat :=
  cdeField cd ptr kCDECompLen 4

/-- `ZipEntry::GetUncompressedLength`. -/
def getUncompressedLength (cd : List UInt8) (ptr : Nat) : Option Nat :=
  cdeField cd ptr kCDEUncompLen 4

/-- `ZipEntry::GetCrc32`. -/
def getCrc32 (cd : List UInt8) (ptr : Nat) : Option Nat :=
  cdeField cd ptr kCDECRC 4

/-- The local-header offset `ZipEntry::GetDataOffset` reads first. -/
def getLocalHeaderOffset (cd : List UInt8) (ptr : Nat) : Option Nat :=
  cdeField cd ptr kCDELocalOffset 4

/-! ### Stored entries -/

/-- An entry as `Parse` means to store it: its record's fixed fields and its
    name lie in the directory, and its key is the record's `name_len` bytes
    of name. -/
def EntryInDir (cd : List UInt8) (e : List UInt8 × Nat) : Prop :=
  e.2 + kCDELen + e.1.length ≤ cd.length ∧
    le16ToHost cd (e.2 + kCDENameLen) = some e.1.length ∧
    readBytes cd (e.2 + kCDELen) e.1.length = some e.1

/-- A scan from inside the buffer that finds no zero has read all `n`
    bytes, so they lie in the buffer. -/
theorem le_length_of_memchr (buf : List UInt8) :
    ∀ (n off : Nat), off ≤ buf.length → memchr buf off n = some false → off + n ≤ buf.length := by
  intro n
  induction n with
  | zero =>
      intro off hoff _
      simpa using hoff
  | succ n ih =>
      intro off _ h
      simp only [memchr, Option.bind_eq_bind, Option.bind_eq_some_iff] at h
      obtain ⟨b, hb, h⟩ := h
      have hlt := (List.getElem?_eq_some_iff.mp hb).1
      split at h
      · cases h
      · have := ih (off + 1) (by omega) h
        omega

theorem mem_put {entries : DirEntries} {name : List UInt8} {ptr : Nat} {e : List UInt8 × Nat}
    (h : e ∈ put entries name ptr) : e ∈ entries ∨ e = (name, ptr) := by
  unfold put at h
  split at h
  · exact Or.inl h
  · simpa using h

/-- The entry for a record whose name scan found no zero is a whole record
    in the directory, keyed by its name. -/
theorem entryInDir_of_scan (cd : List UInt8) (ptr name_len : Nat)
    (hfits : ptr + kCDELen ≤ cd.length)
    (hlen : le16ToHost cd (ptr + kCDENameLen) = some name_len)
    (hscan : memchr cd (ptr + kCDELen) name_len = some false) :
    EntryInDir cd ((cd.drop (ptr + kCDELen)).take name_len, ptr) := by
  have hname := le_length_of_memchr cd name_len (ptr + kCDELen) hfits hscan
  have htake : ((cd.drop (ptr + kCDELen)).take name_len).length = name_len := by
    simp only [List.length_take, List.length_drop]
    omega
  refine ⟨?_, ?_, ?_⟩
  · simp only [htake]
    omega
  · rw [htake, hlen]
  · rw [htake, readBytes_of_le hname]

/-- A record that one round of `Parse` accepts is a whole record in the
    directory, keyed by its name. -/
theorem checkRecord_accept (cd : List UInt8) (dir_offset ptr : Nat) (name : List UInt8)
    (next : Nat) (h : checkRecord cd dir_offset ptr = some (.accept name next)) :
    EntryInDir cd (name, ptr) := by
  -- Every failure is `pure .reject`, never an accept.
  have hreject : ∀ {r : RecordCheck}, r = .accept name next → r ≠ .reject := by
    rintro r rfl
    simp
  unfold checkRecord at h
  simp only [Option.bind_eq_bind, Option.bind_eq_some_iff, Option.pure_def] at h
  obtain ⟨signature, -, h⟩ := h
  by_cases hsig : signature ≠ kCDESignature
  · rw [if_pos hsig] at h
    exact absurd (Option.some.inj h).symm (hreject rfl)
  rw [if_neg hsig] at h
  by_cases hfits : ptr + kCDELen > cd.length
  · rw [if_pos hfits] at h
    exact absurd (Option.some.inj h).symm (hreject rfl)
  rw [if_neg hfits, Option.bind_eq_some_iff] at h
  obtain ⟨local_hdr_offset, -, h⟩ := h
  by_cases hoff : local_hdr_offset ≥ dir_offset
  · rw [if_pos hoff] at h
    exact absurd (Option.some.inj h).symm (hreject rfl)
  rw [if_neg hoff, Option.bind_eq_some_iff] at h
  obtain ⟨gpbf, -, h⟩ := h
  by_cases hflags : gpbf &&& kGPFUnsupportedMask ≠ 0
  · rw [if_pos hflags] at h
    exact absurd (Option.some.inj h).symm (hreject rfl)
  simp only [if_neg hflags, Option.bind_eq_some_iff] at h
  obtain ⟨name_len, hlen, extra_len, -, comment_len, -, has_nul, hscan, h⟩ := h
  cases has_nul with
  | true => exact absurd (Option.some.inj h).symm (hreject rfl)
  | false =>
      -- the scan found no zero: the name is the record's `name_len` bytes
      simp only [Bool.false_eq_true, ↓reduceIte, Option.some.injEq,
        RecordCheck.accept.injEq] at h
      rw [← h.1]
      exact entryInDir_of_scan cd ptr name_len (by omega) hlen hscan

/-- One round of `Parse` keeps every stored entry whole, and by induction so
    does the whole walk: the only entry a round adds is the record it has
    just accepted. -/
theorem parseLoop_entryInDir (cd : List UInt8) (dir_offset : Nat) :
    ∀ (left ptr : Nat) (es : DirEntries) (b : Bool) (es' : DirEntries),
      (∀ e ∈ es, EntryInDir cd e) → parseLoop cd dir_offset left ptr es = some (b, es') →
      ∀ e ∈ es', EntryInDir cd e := by
  intro left
  induction left with
  | zero =>
      intro ptr es b es' hes h
      simp only [parseLoop, Option.some.injEq, Prod.mk.injEq] at h
      rw [← h.2]
      exact hes
  | succ left ih =>
      intro ptr es b es' hes h
      rw [parseLoop] at h
      cases hrec : checkRecord cd dir_offset ptr with
      | none => simp [hrec] at h
      | some r =>
          cases r with
          | reject =>
              simp only [hrec, Option.bind_eq_bind, Option.bind_some, Option.pure_def,
                Option.some.injEq, Prod.mk.injEq] at h
              rw [← h.2]
              exact hes
          | accept name next =>
              have hput : ∀ e ∈ put es name ptr, EntryInDir cd e := by
                intro e he
                rcases mem_put he with he | rfl
                · exact hes e he
                · exact checkRecord_accept cd dir_offset ptr name next hrec
              simp only [hrec, Option.bind_eq_bind, Option.bind_some] at h
              split at h
              · simp only [Option.pure_def, Option.some.injEq, Prod.mk.injEq] at h
                rw [← h.2]
                exact hput
              · exact ih _ _ _ _ hput h

/-- Every entry of a parsed directory is a whole record inside it, whether
    or not `Parse` went on to return `true`. -/
theorem parse_entryInDir (cd : List UInt8) (num_entries : UInt16) (dir_offset : Nat) (b : Bool)
    (es : DirEntries) (h : parse cd num_entries dir_offset = some (b, es)) :
    ∀ e ∈ es, EntryInDir cd e :=
  parseLoop_entryInDir cd dir_offset _ 0 [] b es (by simp) h

theorem mem_of_find {es : DirEntries} {name : List UInt8} {ptr : Nat}
    (h : find es name = some ptr) : (name, ptr) ∈ es := by
  unfold find at h
  rw [Option.map_eq_some_iff] at h
  obtain ⟨e, he, rfl⟩ := h
  have hkey : e.1 = name := by simpa using List.find?_some he
  rw [← hkey]
  exact List.mem_of_find?_eq_some he

/-- A fixed field of a whole record lies inside the directory. -/
theorem cdeField_inside (cd : List UInt8) (e : List UInt8 × Nat) (he : EntryInDir cd e)
    (field width : Nat) (hw : field + width ≤ kCDELen) :
    ∃ v, cdeField cd e.2 field width = some v := by
  unfold cdeField readLE
  rw [readBytes_of_le (by have := he.1; omega)]
  exact ⟨_, rfl⟩

/-- The accessors of every entry `Find` returns from a parsed directory read
    inside the directory, and the entry's key is the name stored in its
    record. -/
theorem find_fields_inside (cd : List UInt8) (num_entries : UInt16) (dir_offset : Nat)
    (es : DirEntries) (name : List UInt8) (ptr : Nat)
    (hparse : parse cd num_entries dir_offset = some (true, es)) (hfind : find es name = some ptr) :
    (∃ v, getCompressionMethod cd ptr = some v) ∧ (∃ v, getCompressedLength cd ptr = some v) ∧
      (∃ v, getUncompressedLength cd ptr = some v) ∧ (∃ v, getCrc32 cd ptr = some v) ∧
      (∃ v, getLocalHeaderOffset cd ptr = some v) ∧
      le16ToHost cd (ptr + kCDENameLen) = some name.length ∧
      readBytes cd (ptr + kCDELen) name.length = some name := by
  have he := parse_entryInDir cd num_entries dir_offset true es hparse _ (mem_of_find hfind)
  exact ⟨cdeField_inside cd _ he _ _ (by decide), cdeField_inside cd _ he _ _ (by decide),
    cdeField_inside cd _ he _ _ (by decide), cdeField_inside cd _ he _ _ (by decide),
    cdeField_inside cd _ he _ _ (by decide), he.2.1, he.2.2⟩

/-! ### An over-stated entry count -/

/-- A directory of one record: the signature, every other fixed field zero,
    and an empty name, extra field and comment. -/
def oneRecordDirectory : List UInt8 :=
  leEncode 4 kCDESignature ++ List.replicate 42 0

theorem checkRecord_oneRecord (dir_offset : Nat) :
    checkRecord oneRecordDirectory (dir_offset + 1) 0 = some (.accept [] kCDELen) := by
  simp [checkRecord, oneRecordDirectory, le32ToHost, le16ToHost, readLE, readBytes, memchr,
    kCDELen, kCDESignature, kCDELocalOffset, kCDEGPBFlags, kCDENameLen, kCDEExtraLen,
    kCDECommentLen, kGPFUnsupportedMask, leEncode, leDecode]

/-- The record is valid: with a count of one, `Parse` accepts the directory.
    With an end-of-directory count of two, the second round reads the
    signature at offset `46`, the end of the directory, before any bound
    check. -/
theorem parse_overstated_count (dir_offset : Nat) :
    parse oneRecordDirectory 1 (dir_offset + 1) = some (true, [([], 0)]) ∧
      le32ToHost oneRecordDirectory kCDELen = none ∧
      parse oneRecordDirectory 2 (dir_offset + 1) = none := by
  have hend : le32ToHost oneRecordDirectory kCDELen = none := by
    rfl
  have hsecond : checkRecord oneRecordDirectory (dir_offset + 1) kCDELen = none := by
    unfold checkRecord
    rw [hend]
    rfl
  have hlen : oneRecordDirectory.length = kCDELen := by
    rfl
  -- The first round accepts the record and advances exactly to the end.
  have hfirst : ∀ left, parseLoop oneRecordDirectory (dir_offset + 1) (left + 1) 0 [] =
      parseLoop oneRecordDirectory (dir_offset + 1) left kCDELen [([], 0)] := by
    intro left
    simp [parseLoop, checkRecord_oneRecord, put, hlen]
  refine ⟨?_, hend, ?_⟩
  · rw [parse, show (1 : UInt16).toNat = 0 + 1 by rfl, hfirst]
    rfl
  · rw [parse, show (2 : UInt16).toNat = 1 + 1 by rfl, hfirst, parseLoop, hsecond]
    rfl

end ZipArchive

end ArtRuntime
