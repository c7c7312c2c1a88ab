import Mathlib

/-!
# Little-Endian Byte Lists

Byte strings as the runtime's binary formats see them: a buffer is a list of
bytes, a multi-byte field is read least significant byte first, and a field
that does not fit in the buffer cannot be read at all.

Nothing here is specific to one format. The dex file header, the central
directory of a zip archive and the two garbage-collection maps all store
their fields this way, and each of their models reads and writes through the
operations below so that the arithmetic of the encoding is proved once.

A read is partial: `readBytes` returns `none` when the requested range leaves
the buffer. That is how the models tell a read the code may make from one it
must not make, and `readBytes_isSome_iff` is the single fact that turns a
bounds check in the code into a successful read here.

A write never changes the length of the buffer. `writeBytes` replaces a range
byte by byte, the way the code's loops do, and `writeBytes_append_chunks`
says what that does to a buffer laid out as equal-width records.

## Main definitions

* `leDecode`: The number whose little-endian bytes are given.
* `leEncode`: The `w` little-endian bytes of a number.
* `readBytes`: The bytes of a range, if the range lies inside the buffer.
* `readLE`: A little-endian field read from a buffer.
* `writeBytes`: Overwriting a range of a buffer.

## Theorems

* `leDecode_leEncode`: Decoding an encoding gives the number modulo
  `256 ^ w`.
* `leDecode_lt`: A decoded number is below `256 ^ length`.
* `readBytes_isSome_iff`: A range can be read exactly when it fits.
* `readLE_of_prefix_drop`: Bytes standing at an offset are read there.
* `writeBytes_append_chunks`: Writing one record of a record table.
* `readBytes_append_chunks`: Reading one record of a record table.
* `foldl_set_shift`: A shift-and-mask loop writes the little-endian bytes.
* `foldl_or_shift`: A shift-and-or loop reads them back.
-/

namespace ByteList

/-- The number whose bytes, least significant first, are given. -/
def leDecode : List UInt8 → Nat
  | [] => 0
  | b :: bs => b.toNat + 256 * leDecode bs

/-- The `w` bytes of `n`, least significant first; higher bytes are dropped. -/
def leEncode : Nat → Nat → List UInt8
  | 0, _ => []
  | w + 1, n => UInt8.ofNat n :: leEncode w (n / 256)

@[simp] theorem leDecode_nil : leDecode [] = 0 := rfl

@[simp] theorem leDecode_cons (b : UInt8) (bs : List UInt8) :
    leDecode (b :: bs) = b.toNat + 256 * leDecode bs := rfl

@[simp] theorem leEncode_zero (n : Nat) : leEncode 0 n = [] := rfl

@[simp] theorem leEncode_succ (w n : Nat) :
    leEncode (w + 1) n = UInt8.ofNat n :: leEncode w (n / 256) := rfl

@[simp] theorem length_leEncode (w n : Nat) : (leEncode w n).length = w := by
  induction w generalizing n with
  | zero => rfl
  | succ w ih => simp [ih]

theorem leDecode_leEncode (w n : Nat) : leDecode (leEncode w n) = n % 256 ^ w := by
  induction w generalizing n with
  | zero => simp [Nat.mod_one]
  | succ w ih =>
      rw [leEncode_succ, leDecode_cons, ih, UInt8.toNat_ofNat']
      -- Splitting off the low byte is `Nat.mod_mul` read backwards.
      show n % 256 + 256 * (n / 256 % 256 ^ w) = n % 256 ^ (w + 1)
      rw [pow_succ', Nat.mod_mul]

theorem leDecode_leEncode_of_lt {w n : Nat} (h : n < 256 ^ w) :
    leDecode (leEncode w n) = n := by
  rw [leDecode_leEncode, Nat.mod_eq_of_lt h]

theorem leDecode_lt (bs : List UInt8) : leDecode bs < 256 ^ bs.length := by
  induction bs with
  | nil => simp
  | cons b bs ih =>
      have hb : b.toNat < 256 := b.toNat_lt
      rw [leDecode_cons, List.length_cons, pow_succ]
      omega

@[simp] theorem leDecode_replicate_zero (k : Nat) : leDecode (List.replicate k 0) = 0 := by
  induction k with
  | zero => rfl
  | succ k ih => simp [List.replicate_succ, ih]

theorem leDecode_append (xs ys : List UInt8) :
    leDecode (xs ++ ys) = leDecode xs + 256 ^ xs.length * leDecode ys := by
  induction xs with
  | nil => simp
  | cons b bs ih =>
      rw [List.cons_append, leDecode_cons, leDecode_cons, ih, List.length_cons, pow_succ]
      ring

/-- The bytes `[off, off + n)` of the buffer, or `none` if they leave it. -/
def readBytes (buf : List UInt8) (off n : Nat) : Option (List UInt8) :=
  if off + n ≤ buf.length then some ((buf.drop off).take n) else none

/-- An `n`-byte little-endian field at `off`, if it lies inside the buffer. -/
def readLE (buf : List UInt8) (off n : Nat) : Option Nat :=
  (readBytes buf off n).map leDecode

theorem readBytes_isSome_iff (buf : List UInt8) (off n : Nat) :
    (readBytes buf off n).isSome ↔ off + n ≤ buf.length := by
  unfold readBytes
  split <;> simp_all

theorem readBytes_eq_none_iff (buf : List UInt8) (off n : Nat) :
    readBytes buf off n = none ↔ buf.length < off + n := by
  unfold readBytes
  split <;> simp_all

theorem readLE_eq_none_iff (buf : List UInt8) (off n : Nat) :
    readLE buf off n = none ↔ buf.length < off + n := by
  simp [readLE, readBytes_eq_none_iff]

theorem readBytes_of_le {buf : List UInt8} {off n : Nat} (h : off + n ≤ buf.length) :
    readBytes buf off n = some ((buf.drop off).take n) := by
  unfold readBytes
  rw [if_pos h]

/-- Reading at the front of a buffer that starts with the wanted bytes. -/
theorem readBytes_append_left (xs ys : List UInt8) :
    readBytes (xs ++ ys) 0 xs.length = some xs := by
  simp [readBytes]

/-- A non-empty block found at an offset ends within the buffer. -/
theorem add_length_le_of_prefix_drop {buf bs : List UInt8} {off : Nat} (h : bs <+: buf.drop off)
    (hbs : bs ≠ []) : off + bs.length ≤ buf.length := by
  have hlen := h.length_le
  have hpos := List.length_pos_of_ne_nil hbs
  rw [List.length_drop] at hlen
  omega

/-- Bytes that stand at an offset of a buffer are read there. -/
theorem readBytes_of_prefix_drop {buf bs : List UInt8} {off : Nat} (h : bs <+: buf.drop off)
    (hbs : bs ≠ []) : readBytes buf off bs.length = some bs := by
  rw [readBytes_of_le (add_length_le_of_prefix_drop h hbs), ← List.prefix_iff_eq_take.mp h]

theorem readLE_of_prefix_drop {buf bs : List UInt8} {off : Nat} (h : bs <+: buf.drop off)
    (hbs : bs ≠ []) : readLE buf off bs.length = some (leDecode bs) := by
  rw [readLE, readBytes_of_prefix_drop h hbs, Option.map_some]

/-- A prefix of a range that was read whole. -/
theorem take_of_readBytes {buf bs : List UInt8} {off n m : Nat}
    (h : readBytes buf off n = some bs) (hm : m ≤ n) : (buf.drop off).take m = bs.take m := by
  unfold readBytes at h
  split at h
  · rw [← Option.some.inj h, List.take_take, Nat.min_eq_left hm]
  · cases h

/-- Reading the second part of a range that was read whole. -/
theorem readBytes_split {buf xs ys : List UInt8} {off : Nat}
    (h : readBytes buf off (xs.length + ys.length) = some (xs ++ ys)) :
    readBytes buf (off + xs.length) ys.length = some ys := by
  unfold readBytes at h ⊢
  split at h
  · rw [if_pos (by omega)]
    have heq : (buf.drop off).take (xs.length + ys.length) = xs ++ ys := Option.some.inj h
    have hdrop := congrArg (List.drop xs.length) heq
    rw [List.drop_left, List.drop_take, List.drop_drop, Nat.add_sub_cancel_left] at hdrop
    exact congrArg some hdrop
  · cases h

/-- Overwrite the buffer with `bs` from `off` on, one byte at a time; bytes
    that would land past the end are dropped, as `List.set` drops them. -/
def writeBytes (buf : List UInt8) (off : Nat) : List UInt8 → List UInt8
  | [] => buf
  | b :: bs => writeBytes (buf.set off b) (off + 1) bs

@[simp] theorem length_writeBytes (buf : List UInt8) (off : Nat) (bs : List UInt8) :
    (writeBytes buf off bs).length = buf.length := by
  induction bs generalizing buf off with
  | nil => rfl
  | cons b bs ih => simp [writeBytes, ih]

/-- Writing past a prefix leaves the prefix alone. -/
theorem writeBytes_append_right (xs ys bs : List UInt8) (off : Nat) (h : xs.length ≤ off) :
    writeBytes (xs ++ ys) off bs = xs ++ writeBytes ys (off - xs.length) bs := by
  induction bs generalizing ys off with
  | nil => rfl
  | cons b bs ih =>
      rw [writeBytes, List.set_append_right _ _ h, ih _ _ (by omega), writeBytes]
      congr 2
      omega

/-- Writing as many bytes as a prefix holds replaces that prefix. -/
theorem writeBytes_front (xs ys bs : List UInt8) (h : bs.length = xs.length) :
    writeBytes (xs ++ ys) 0 bs = bs ++ ys := by
  induction bs generalizing xs with
  | nil =>
      rw [List.length_nil, eq_comm, List.length_eq_zero_iff] at h
      subst h
      rfl
  | cons b bs ih =>
      cases xs with
      | nil => simp at h
      | cons x xs =>
          simp only [List.length_cons, Nat.add_right_cancel_iff] at h
          have hstep : writeBytes (b :: (xs ++ ys)) 1 bs = [b] ++ writeBytes (xs ++ ys) 0 bs :=
            writeBytes_append_right [b] (xs ++ ys) bs 1 (by simp)
          rw [List.cons_append, writeBytes, List.set_cons_zero, hstep, ih xs h]
          rfl

/-- A write that fits replaces its range: the bytes before it, the bytes
    written, then the bytes after it. -/
theorem writeBytes_eq {buf bs : List UInt8} {off : Nat} (h : off + bs.length ≤ buf.length) :
    writeBytes buf off bs = buf.take off ++ bs ++ buf.drop (off + bs.length) := by
  have htake : (buf.take off).length = off := by
    rw [List.length_take]
    omega
  have hfront : ((buf.drop off).take bs.length).length = bs.length := by
    rw [List.length_take, List.length_drop]
    omega
  conv_lhs => rw [← List.take_append_drop off buf, ← List.take_append_drop bs.length (buf.drop off)]
  rw [writeBytes_append_right _ _ _ _ (Nat.le_of_eq htake), htake, Nat.sub_self,
    writeBytes_front _ _ _ hfront.symm, List.drop_drop, List.append_assoc]

/-- The bytes a write puts at an offset stand there. -/
theorem prefix_drop_writeBytes_self {buf bs : List UInt8} {off : Nat} (h : off + bs.length ≤ buf.length) :
    bs <+: (writeBytes buf off bs).drop off := by
  rw [writeBytes_eq h, List.append_assoc, List.drop_left' (by rw [List.length_take]; omega)]
  exact List.prefix_append _ _

/-- A write leaves in place the bytes of any range it does not meet. -/
theorem prefix_drop_writeBytes_of_disjoint {buf bs xs : List UInt8} {p q : Nat}
    (hfit : p + bs.length ≤ buf.length) (hx : xs <+: buf.drop q)
    (hdisj : p + bs.length ≤ q ∨ q + xs.length ≤ p) : xs <+: (writeBytes buf p bs).drop q := by
  rw [writeBytes_eq hfit]
  rcases hdisj with hafter | hbefore
  · -- the range lies past the write, where the buffer is unchanged
    have hdrop : (buf.take p ++ bs ++ buf.drop (p + bs.length)).drop q = buf.drop q := by
      rw [List.drop_append, List.drop_eq_nil_of_le (by simp; omega), List.nil_append, List.drop_drop]
      congr 1
      simp only [List.length_append, List.length_take]
      omega
    rwa [hdrop]
  · -- the range ends before the write, inside the bytes kept in front
    obtain ⟨t, ht⟩ := hx
    have hfront : (buf.take p).drop q = xs ++ t.take (p - q - xs.length) := by
      rw [List.drop_take, ← ht, List.take_append, List.take_of_length_le (by omega)]
    rw [List.append_assoc, List.drop_append, hfront, show q - (buf.take p).length = 0 by simp; omega,
      List.drop_zero, List.append_assoc]
    exact List.prefix_append _ _

/-- Reading past a prefix reads from what follows it. -/
theorem readBytes_append_right (xs ys : List UInt8) (off n : Nat) :
    readBytes (xs ++ ys) (xs.length + off) n = readBytes ys off n := by
  unfold readBytes
  simp only [List.length_append, List.drop_append, List.drop_eq_nil_of_le (Nat.le_add_right _ _),
    Nat.add_sub_cancel_left, List.nil_append]
  by_cases h : off + n ≤ ys.length
  · rw [if_pos (by omega), if_pos h]
  · rw [if_neg (by omega), if_neg h]

/-- Writing record `j` of a table of `w`-byte records that follows a header
    replaces that record and nothing else. -/
theorem writeBytes_append_chunks (hdr : List UInt8) (rs : List (List UInt8)) (w j : Nat)
    (bs : List UInt8) (hw : ∀ r ∈ rs, r.length = w) (hj : j < rs.length)
    (hbs : bs.length = w) :
    writeBytes (hdr ++ rs.flatten) (hdr.length + j * w) bs = hdr ++ (rs.set j bs).flatten := by
  -- Induction on the record index, moving one record at a time into the header.
  induction rs generalizing hdr j with
  | nil => simp at hj
  | cons r rs ih =>
      have hr : r.length = w := hw r (by simp)
      cases j with
      | zero =>
          rw [List.flatten_cons, Nat.zero_mul, Nat.add_zero,
            writeBytes_append_right _ _ _ _ (le_refl _), Nat.sub_self,
            writeBytes_front _ _ _ (by rw [hbs, hr])]
          rfl
      | succ j =>
          have hoff : hdr.length + (j + 1) * w = (hdr ++ r).length + j * w := by
            rw [List.length_append, hr, Nat.succ_mul]
            omega
          rw [List.flatten_cons, ← List.append_assoc, hoff,
            ih (hdr ++ r) j (fun r' hr' => hw r' (by simp [hr'])) (by simpa using hj)]
          simp

/-- Reading record `j` of a table of `w`-byte records that follows a header. -/
theorem readBytes_append_chunks (hdr : List UInt8) (rs : List (List UInt8)) (w j : Nat)
    (hw : ∀ r ∈ rs, r.length = w) (hj : j < rs.length) :
    readBytes (hdr ++ rs.flatten) (hdr.length + j * w) w = some rs[j] := by
  rw [readBytes_append_right]
  induction rs generalizing j with
  | nil => simp at hj
  | cons r rs ih =>
      have hr : r.length = w := hw r (by simp)
      cases j with
      | zero =>
          rw [List.flatten_cons, Nat.zero_mul, ← hr, readBytes_append_left]
          rfl
      | succ j =>
          have hoff : (j + 1) * w = r.length + j * w := by
            rw [hr, Nat.succ_mul]
            omega
          rw [List.flatten_cons, hoff, readBytes_append_right,
            ih j (fun r' hr' => hw r' (by simp [hr'])) (by simpa using hj)]
          rfl

theorem leEncode_succ_right (w n : Nat) :
    leEncode (w + 1) n = leEncode w n ++ [UInt8.ofNat (n / 256 ^ w)] := by
  induction w generalizing n with
  | zero => simp
  | succ w ih =>
      rw [leEncode_succ, ih, leEncode_succ, Nat.div_div_eq_div_mul, ← pow_succ']
      rfl

theorem writeBytes_append (buf : List UInt8) (off : Nat) (xs ys : List UInt8) :
    writeBytes buf off (xs ++ ys) = writeBytes (writeBytes buf off xs) (off + xs.length) ys := by
  induction xs generalizing buf off with
  | nil => rfl
  | cons x xs ih =>
      rw [List.cons_append, writeBytes, writeBytes, ih, List.length_cons]
      congr 1
      omega

/-- Byte `i` of a number, as a shift and a mask compute it. -/
theorem ofNat_shiftRight_and (n i : Nat) :
    UInt8.ofNat ((n >>> (i * 8)) &&& 0xFF) = UInt8.ofNat (n / 256 ^ i) := by
  apply UInt8.toNat_inj.mp
  have hmask : (0xFF : Nat) = 2 ^ 8 - 1 := rfl
  have hpow : (2 : Nat) ^ (i * 8) = 256 ^ i := by
    rw [Nat.mul_comm, pow_mul]
    rfl
  rw [UInt8.toNat_ofNat', UInt8.toNat_ofNat', hmask, Nat.and_two_pow_sub_one_eq_mod,
    Nat.shiftRight_eq_div_pow, hpow, Nat.mod_mod]

/-- The code's loop `buf[off + i] = (n >> (i * 8)) & 0xFF` for `i < w`
    writes the `w` little-endian bytes of `n`. -/
theorem foldl_set_shift (buf : List UInt8) (off n w : Nat) :
    (List.range w).foldl
        (fun t i => t.set (off + i) (UInt8.ofNat ((n >>> (i * 8)) &&& 0xFF))) buf =
      writeBytes buf off (leEncode w n) := by
  induction w with
  | zero => rfl
  | succ w ih =>
      rw [List.range_succ, List.foldl_append, ih, leEncode_succ_right, writeBytes_append,
        length_leEncode, List.foldl_cons, List.foldl_nil, ofNat_shiftRight_and]
      rfl

/-- The code's loop `r |= buf[off + i] << (i * 8)` for `i < w` reads the
    `w` little-endian bytes at `off`. -/
theorem foldl_or_shift (buf : List UInt8) (off w : Nat) (h : off + w ≤ buf.length) :
    (List.range w).foldl (fun r i => r ||| ((buf.getD (off + i) 0).toNat <<< (i * 8))) 0 =
      leDecode ((buf.drop off).take w) := by
  induction w with
  | zero => simp
  | succ w ih =>
      rw [List.range_succ, List.foldl_append, ih (by omega), List.foldl_cons, List.foldl_nil]
      -- The bytes read so far fit below bit `8 * w`, so the new byte is added.
      have hlt : leDecode ((buf.drop off).take w) < 2 ^ (w * 8) := by
        have := leDecode_lt ((buf.drop off).take w)
        rw [List.length_take, List.length_drop, Nat.min_eq_left (by omega)] at this
        rwa [Nat.mul_comm, pow_mul]
      have htake : (buf.drop off).take (w + 1) = (buf.drop off).take w ++ [buf.getD (off + w) 0] := by
        rw [List.take_add_one, List.getElem?_drop, List.getD_eq_getElem?_getD,
          List.getElem?_eq_getElem (by omega)]
        rfl
      rw [Nat.or_comm, ← Nat.shiftLeft_add_eq_or_of_lt hlt, htake, leDecode_append,
        List.length_take, List.length_drop, Nat.min_eq_left (by omega), leDecode_cons,
        leDecode_nil, Nat.shiftLeft_eq, Nat.mul_comm w 8, pow_mul]
      norm_num
      ring

end ByteList
