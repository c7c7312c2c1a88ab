import ArtRuntime.Core.Word
import ArtRuntime.Core.Reach
import ArtRuntime.Core.ReentrantLock

/-!
# Thin and Fat Locks

Every object's lock word is thin or fat (monitor.cc). A thin word holds the
owner's thin lock id and a 13-bit recursion count; a fat word points to a
`Monitor` with an owner of its own and an `int` count. `MonitorEnter` takes a
free thin lock with a CAS, counts a recursive enter in the word, and inflates
the lock when the count reaches `LW_LOCK_COUNT_MASK` or when it had to spin for
the lock; `MonitorExit` undoes one enter, or fails for a thread that does not
hold the lock. The hash-state bits ride along in both shapes.

What all this means is a `ReentrantLock` of thin lock ids. `Represents` says
which abstract lock a word and a monitor stand for, and each call, where it
proceeds, does to the abstract lock what the abstract operation does, as long
as no thread holds the lock more than `2 ^ 31` times. Past that the monitor's
`int` count overflows and no longer records the holds.

## Main definitions

* `LW_SHAPE`, `LW_HASH_STATE`, `LW_LOCK_OWNER`, `LW_LOCK_COUNT`,
  `LW_MONITOR`: The fields of a lock word.
* `Monitor.lock`, `Monitor.unlock`, `inflate`, `monitorEnter`,
  `monitorEnterAfterSpin`, `monitorExit`: The locking code.
* `Represents`: The abstract lock a word and a monitor stand for.
* `lockSystem`, `boundedLockSystem`: Threads entering and exiting, with each
  thread's count of enters less successful exits.
* `RecordsHolds`: What the word and the monitor say about those counts.

## Theorems

* `monitorEnter_spec`, `monitorEnterAfterSpin_spec`, `monitorExit_spec`:
  Each call refines the abstract operation.
* `LockInv.step`, `lockInv_reach`: Every step of a bounded run keeps the
  refinement, so every state a bounded run reaches has it.
* `lockWord_invariant`: In a bounded run at most one thread holds the lock,
  the word or the monitor records the holds, the hash state never changes,
  n nested enters and n exits leave the lock unowned, and an exit by a thread
  that does not hold the lock fails and changes nothing.
* `reach_not_recordsHolds`: Without the bound the 2^31 + 1-th hold wraps
  lock_count_ and the monitor no longer records the holds.
-/

namespace ArtRuntime

open MachineWord TransitionSystem

/-! ### Lock words -/

/-- LW_SHAPE_THIN. -/
def LW_SHAPE_THIN : UInt32 := 0

/-- LW_SHAPE_FAT. -/
def LW_SHAPE_FAT : UInt32 := 1

/-- LW_SHAPE_MASK. -/
def LW_SHAPE_MASK : UInt32 := 0x1

/-- LW_SHAPE: thin or fat, the lowest bit. -/
def LW_SHAPE (x : UInt32) : UInt32 := x &&& LW_SHAPE_MASK

/-- LW_HASH_STATE_MASK. -/
def LW_HASH_STATE_MASK : UInt32 := 0x3

/-- LW_HASH_STATE_SHIFT. -/
def LW_HASH_STATE_SHIFT : UInt32 := 1

/-- LW_HASH_STATE: bits 1 and 2, in both shapes. -/
def LW_HASH_STATE (x : UInt32) : UInt32 := (x >>> LW_HASH_STATE_SHIFT) &&& LW_HASH_STATE_MASK

/-- LW_LOCK_OWNER_MASK. -/
def LW_LOCK_OWNER_MASK : UInt32 := 0xffff

/-- LW_LOCK_OWNER_SHIFT. -/
def LW_LOCK_OWNER_SHIFT : UInt32 := 3

/-- LW_LOCK_OWNER: the thin owner's id, bits 3 to 18. -/
def LW_LOCK_OWNER (x : UInt32) : UInt32 := (x >>> LW_LOCK_OWNER_SHIFT) &&& LW_LOCK_OWNER_MASK

/-- LW_LOCK_COUNT_MASK. -/
def LW_LOCK_COUNT_MASK : UInt32 := 0x1fff

/-- LW_LOCK_COUNT_SHIFT. -/
def LW_LOCK_COUNT_SHIFT : UInt32 := 19

/-- LW_LOCK_COUNT: the thin recursion count, bits 19 to 31. -/
def LW_LOCK_COUNT (x : UInt32) : UInt32 := (x >>> LW_LOCK_COUNT_SHIFT) &&& LW_LOCK_COUNT_MASK

/-- LW_MONITOR: the monitor a fat word points to, the word without its hash
    and shape bits. -/
def LW_MONITOR (x : UInt32) : UInt32 :=
  x &&& ~~~((LW_HASH_STATE_MASK <<< LW_HASH_STATE_SHIFT) ||| LW_SHAPE_MASK)

/-- ThreadList::kMaxThreadId. -/
def kMaxThreadId : Nat := 0xFFFF

/-- A thread, named by the thin lock id ThreadList::AllocThreadId gave it: ids
    lie in [1, kMaxThreadId] and no two live threads share one. -/
structure ThinLockId where
  id : Nat
  pos : 0 < id
  le_max : id ≤ kMaxThreadId
  deriving DecidableEq

/-- Thread::GetThinLockId. -/
def ThinLockId.getThinLockId (t : ThinLockId) : UInt32 := t.id.toUInt32

/-! ### Monitors and the locking code -/

/-- The fields of a Monitor that locking uses: owner_, a thread, and
    lock_count_, an `int`. Its monitor_lock_ is held exactly while owner_ is
    set, so it is not kept apart. -/
structure Monitor where
  owner_ : Option ThinLockId
  lock_count_ : Int32
  deriving DecidableEq

namespace Monitor

/-- Monitor::Lock: the owner counts one more enter; another thread takes a
    monitor without an owner, and blocks on monitor_lock_ (none here) while
    some other thread owns it. -/
def lock (m : Monitor) (self : ThinLockId) : Option Monitor :=
  if m.owner_ = some self then some { m with lock_count_ := m.lock_count_ + 1 }
  else if m.owner_ = none then some { m with owner_ := some self }
  else none

/-- Monitor::Unlock with for_wait false: the owner undoes one enter and gives
    the monitor up at count 0; for any other thread FailedUnlock throws, and
    the call returns false. -/
def unlock (m : Monitor) (self : ThinLockId) : Bool × Monitor :=
  if m.owner_ = some self then
    if m.lock_count_ = 0 then (true, { m with owner_ := none })
    else (true, { m with lock_count_ := m.lock_count_ - 1 })
  else (false, m)

end Monitor

/-- One object's lock: its lock word, and the Monitor a fat word points to. -/
structure ObjectLock where
  word : UInt32
  monitor : Option Monitor
  deriving DecidableEq

/-- Monitor::Inflate, through the Monitor constructor: a new monitor at
    `addr`, owned by `self`, takes over the word's recursion count; the word
    keeps its hash state and points to the monitor. -/
def inflate (addr : UInt32) (self : ThinLockId) (l : ObjectLock) : ObjectLock where
  word := (l.word &&& (LW_HASH_STATE_MASK <<< LW_HASH_STATE_SHIFT)) ||| (addr ||| LW_SHAPE_FAT)
  monitor := some { owner_ := some self, lock_count_ := (LW_LOCK_COUNT l.word).toInt32 }

/-- The end of a recursive thin enter: inflate once the count in the word has
    reached LW_LOCK_COUNT_MASK, so that the next enter cannot overflow it. -/
def inflateIfFull (addr : UInt32) (self : ThinLockId) (l : ObjectLock) : ObjectLock :=
  if LW_LOCK_COUNT l.word = LW_LOCK_COUNT_MASK then inflate addr self l else l

/-- Monitor::MonitorEnter where it does not wait: a recursive enter counted
    in a thin word; the CAS that installs the caller's id in a free thin word;
    or Monitor::Lock on a fat lock. None while another thread holds the lock:
    the call then waits, and ends in `monitorEnterAfterSpin` for a thin lock
    or here for a fat one. -/
def monitorEnter (addr : UInt32) (self : ThinLockId) (l : ObjectLock) : Option ObjectLock :=
  if LW_SHAPE l.word = LW_SHAPE_THIN then
    if LW_LOCK_OWNER l.word = self.getThinLockId then
      some (inflateIfFull addr self { l with word := l.word + (1 <<< LW_LOCK_COUNT_SHIFT) })
    else if LW_LOCK_OWNER l.word = 0 then
      some { l with word := l.word ||| (self.getThinLockId <<< LW_LOCK_OWNER_SHIFT) }
    else none
  else
    (l.monitor.bind fun m => m.lock self).map fun m => { l with monitor := some m }

/-- The end of a Monitor::MonitorEnter call that found the thin lock held by
    another thread: it spun until the lock was released, took it with the CAS
    and inflated it. None while the lock is held or fat; a fat lock sends the
    call back to Monitor::Lock, as in `monitorEnter`. -/
def monitorEnterAfterSpin (addr : UInt32) (self : ThinLockId) (l : ObjectLock) :
    Option ObjectLock :=
  if LW_SHAPE l.word = LW_SHAPE_THIN ∧ LW_LOCK_OWNER l.word = 0 then
    some (inflate addr self { l with word := l.word ||| (self.getThinLockId <<< LW_LOCK_OWNER_SHIFT) })
  else none

/-- Monitor::MonitorExit: whether the caller held the lock, and the lock
    after. A thin owner clears all bits but the hash state at count 0 and
    counts down otherwise; a fat lock goes to Monitor::Unlock. None only for
    a fat word without a monitor. -/
def monitorExit (self : ThinLockId) (l : ObjectLock) : Option (Bool × ObjectLock) :=
  if LW_SHAPE l.word = LW_SHAPE_THIN then
    if LW_LOCK_OWNER l.word = self.getThinLockId then
      if LW_LOCK_COUNT l.word = 0 then
        some (true, { l with word := l.word &&& (LW_HASH_STATE_MASK <<< LW_HASH_STATE_SHIFT) })
      else some (true, { l with word := l.word - (1 <<< LW_LOCK_COUNT_SHIFT) })
    -- FailedUnlock: the caller does not own the thin lock.
    else some (false, l)
  else
    l.monitor.map fun m => ((m.unlock self).1, { l with monitor := some (m.unlock self).2 })

/-! ### Reading the fields as numbers -/

section Fields

theorem toNat_LW_SHAPE (x : UInt32) : (LW_SHAPE x).toNat = x.toNat % 2 :=
  toNat_and_mask x LW_SHAPE_MASK (k := 1) rfl

theorem toNat_LW_HASH_STATE (x : UInt32) : (LW_HASH_STATE x).toNat = x.toNat / 2 % 4 :=
  toNat_field x LW_HASH_STATE_SHIFT LW_HASH_STATE_MASK (w := 2) (by decide) rfl

theorem toNat_LW_LOCK_OWNER (x : UInt32) : (LW_LOCK_OWNER x).toNat = x.toNat / 2 ^ 3 % 2 ^ 16 :=
  toNat_field x LW_LOCK_OWNER_SHIFT LW_LOCK_OWNER_MASK (by decide) rfl

theorem toNat_LW_LOCK_COUNT (x : UInt32) :
    (LW_LOCK_COUNT x).toNat = x.toNat / 2 ^ 19 % 2 ^ 13 :=
  toNat_field x LW_LOCK_COUNT_SHIFT LW_LOCK_COUNT_MASK (by decide) rfl

theorem toNat_LW_MONITOR (x : UInt32) : (LW_MONITOR x).toNat = x.toNat / 2 ^ 3 * 2 ^ 3 :=
  toNat_and_high_mask x _ (by decide) rfl

theorem ThinLockId.toNat_getThinLockId (t : ThinLockId) : t.getThinLockId.toNat = t.id := by
  have hle := t.le_max
  rw [getThinLockId, toNat_toUInt32, Nat.mod_eq_of_lt (by unfold kMaxThreadId at hle; omega)]

theorem toNat_add_count {x : UInt32} (h : x.toNat + 2 ^ 19 < 2 ^ 32) :
    (x + (1 <<< LW_LOCK_COUNT_SHIFT)).toNat = x.toNat + 2 ^ 19 :=
  toNat_add_of_lt x _ h

theorem toNat_sub_count {x : UInt32} (h : 2 ^ 19 ≤ x.toNat) :
    (x - (1 <<< LW_LOCK_COUNT_SHIFT)).toNat = x.toNat - 2 ^ 19 :=
  UInt32.toNat_sub_of_le _ _ (UInt32.le_iff_toNat_le.mpr h)

theorem toNat_or_owner {x : UInt32} (t : ThinLockId) (hx : x.toNat < 2 ^ 3) :
    (x ||| (t.getThinLockId <<< LW_LOCK_OWNER_SHIFT)).toNat = x.toNat + t.id * 2 ^ 3 := by
  have hle := t.le_max
  unfold kMaxThreadId at hle
  have hy : t.getThinLockId.toNat * 2 ^ LW_LOCK_OWNER_SHIFT.toNat < 2 ^ 32 := by
    rw [t.toNat_getThinLockId, show LW_LOCK_OWNER_SHIFT.toNat = 3 from rfl]
    omega
  rw [toNat_or_shiftLeft _ _ _ (by decide) hx hy, t.toNat_getThinLockId]
  rfl

/-- The hash-state bits, kept in place. -/
theorem toNat_and_hash_bits (x : UInt32) :
    (x &&& (LW_HASH_STATE_MASK <<< LW_HASH_STATE_SHIFT)).toNat = x.toNat / 2 % 4 * 2 := by
  rw [UInt32.toNat_and, show (LW_HASH_STATE_MASK <<< LW_HASH_STATE_SHIFT).toNat = 7 &&& 6 from rfl,
    ← Nat.and_assoc, show (7 : Nat) = 2 ^ 3 - 1 from rfl, Nat.and_two_pow_sub_one_eq_mod,
    show (6 : Nat) = (2 ^ (3 - 1) - 1) * 2 ^ 1 from rfl,
    and_high_mask (Nat.mod_lt _ (by decide)) (by decide)]
  omega

/-- The word Monitor's constructor publishes: the monitor's address, the hash
    state and the fat shape bit, each in its own bits. -/
theorem toNat_fat_word (x addr : UInt32) (haddr : addr.toNat % 8 = 0) :
    ((x &&& (LW_HASH_STATE_MASK <<< LW_HASH_STATE_SHIFT)) ||| (addr ||| LW_SHAPE_FAT)).toNat =
      addr.toNat + x.toNat / 2 % 4 * 2 + 1 := by
  -- the hash bits and the shape bit fill bits 0 to 2, the address the rest
  have hlow : x.toNat / 2 % 4 * 2 ||| 1 = x.toNat / 2 % 4 * 2 + 1 := by
    rw [Nat.or_comm, show x.toNat / 2 % 4 * 2 = x.toNat / 2 % 4 * 2 ^ 1 from rfl,
      or_mul_two_pow_eq_add _ (by decide)]
    omega
  have hhigh : x.toNat / 2 % 4 * 2 + 1 ||| addr.toNat / 8 * 2 ^ 3 =
      x.toNat / 2 % 4 * 2 + 1 + addr.toNat / 8 * 2 ^ 3 :=
    or_mul_two_pow_eq_add _ (by omega)
  have hq : addr.toNat ||| 1 = 1 ||| addr.toNat / 8 * 2 ^ 3 := by
    have e : addr.toNat / 8 * 2 ^ 3 = addr.toNat := by omega
    rw [Nat.or_comm, e]
  rw [UInt32.toNat_or, UInt32.toNat_or, toNat_and_hash_bits, show LW_SHAPE_FAT.toNat = 1 from rfl,
    hq, ← Nat.or_assoc, hlow, hhigh]
  omega

end Fields

/-! ### The abstract lock a word stands for -/

/-- The value of a thin word: recursion count, owner's id and hash state. -/
def thinValue (count owner hash : Nat) : Nat := count * 2 ^ 19 + owner * 2 ^ 3 + hash * 2

/-- The value of a fat word: the monitor's address, the hash state and the
    shape bit. -/
def fatValue (addr : UInt32) (hash : Nat) : Nat := addr.toNat + hash * 2 + 1

/-- The word and the monitor stand for the abstract lock `a`, with hash state
    `hash`. A free lock is a thin word with neither owner nor count, or a fat
    word whose monitor has no owner. A lock held `n + 1` times by `t` is a thin
    word with `t`'s id and count `n`, below LW_LOCK_COUNT_MASK where it
    inflates, or a fat word whose monitor `t` owns with lock_count_ `n`, which
    an `int` holds below `2 ^ 31`. -/
def Represents (addr : UInt32) (hash : Nat) (l : ObjectLock) : ReentrantLock ThinLockId → Prop
  | .free => (l.monitor = none ∧ l.word.toNat = thinValue 0 0 hash) ∨
      (l.word.toNat = fatValue addr hash ∧ l.monitor = some ⟨none, 0⟩)
  | .held t n => (l.monitor = none ∧ n < 0x1FFF ∧ l.word.toNat = thinValue n t.id hash) ∨
      (l.word.toNat = fatValue addr hash ∧ n < 2 ^ 31 ∧ l.monitor = some ⟨some t, Int32.ofNat n⟩)

theorem ThinLockId.id_lt (t : ThinLockId) : t.id < 2 ^ 16 := by
  have := t.le_max
  unfold kMaxThreadId at this
  omega

section Decode

variable {w : UInt32} {c o h : Nat}

theorem shape_of_thinValue (hw : w.toNat = thinValue c o h) : LW_SHAPE w = LW_SHAPE_THIN := by
  apply UInt32.toNat_inj.mp
  rw [toNat_LW_SHAPE, hw, show LW_SHAPE_THIN.toNat = 0 from rfl]
  unfold thinValue
  omega

theorem owner_of_thinValue (hw : w.toNat = thinValue c o h) (ho : o < 2 ^ 16) (hh : h < 4) :
    (LW_LOCK_OWNER w).toNat = o := by
  rw [toNat_LW_LOCK_OWNER, hw]
  unfold thinValue
  omega

theorem count_of_thinValue (hw : w.toNat = thinValue c o h) (hc : c < 2 ^ 13) (ho : o < 2 ^ 16)
    (hh : h < 4) : (LW_LOCK_COUNT w).toNat = c := by
  rw [toNat_LW_LOCK_COUNT, hw]
  unfold thinValue
  omega

theorem hash_of_thinValue (hw : w.toNat = thinValue c o h) (hh : h < 4) :
    (LW_HASH_STATE w).toNat = h := by
  rw [toNat_LW_HASH_STATE, hw]
  unfold thinValue
  omega

theorem owner_eq_iff (hw : w.toNat = thinValue c o h) (ho : o < 2 ^ 16) (hh : h < 4)
    (t : ThinLockId) : LW_LOCK_OWNER w = t.getThinLockId ↔ o = t.id := by
  rw [← UInt32.toNat_inj, owner_of_thinValue hw ho hh, t.toNat_getThinLockId]

theorem owner_eq_zero_iff (hw : w.toNat = thinValue c o h) (ho : o < 2 ^ 16) (hh : h < 4) :
    LW_LOCK_OWNER w = 0 ↔ o = 0 := by
  rw [← UInt32.toNat_inj, owner_of_thinValue hw ho hh]
  rfl

variable {addr : UInt32}

theorem shape_of_fatValue (hw : w.toNat = fatValue addr h) (haddr : addr.toNat % 8 = 0) :
    LW_SHAPE w = LW_SHAPE_FAT := by
  apply UInt32.toNat_inj.mp
  rw [toNat_LW_SHAPE, hw, show LW_SHAPE_FAT.toNat = 1 from rfl]
  unfold fatValue
  omega

theorem monitor_of_fatValue (hw : w.toNat = fatValue addr h) (haddr : addr.toNat % 8 = 0)
    (hh : h < 4) : LW_MONITOR w = addr := by
  apply UInt32.toNat_inj.mp
  rw [toNat_LW_MONITOR, hw]
  unfold fatValue
  omega

theorem hash_of_fatValue (hw : w.toNat = fatValue addr h) (haddr : addr.toNat % 8 = 0)
    (hh : h < 4) : (LW_HASH_STATE w).toNat = h := by
  rw [toNat_LW_HASH_STATE, hw]
  unfold fatValue
  omega

theorem shape_thin_ne_fat : LW_SHAPE_THIN ≠ LW_SHAPE_FAT := by decide

theorem fat_shape_ne_thin (hw : w.toNat = fatValue addr h) (haddr : addr.toNat % 8 = 0) :
    LW_SHAPE w ≠ LW_SHAPE_THIN := by
  rw [shape_of_fatValue hw haddr]
  exact shape_thin_ne_fat.symm

end Decode

/-! ### Each call refines the abstract operation -/

section Refinement

variable {addr : UInt32} {hash : Nat} {t : ThinLockId} {l : ObjectLock}
  {a : ReentrantLock ThinLockId}

/-- The word Monitor's constructor publishes for a thin word with hash state
    `hash`. -/
theorem inflate_word (haddr : addr.toNat % 8 = 0) {c o : Nat}
    (hw : l.word.toNat = thinValue c o hash) (hh : hash < 4) :
    (inflate addr t l).word.toNat = fatValue addr hash := by
  rw [inflate, toNat_fat_word _ _ haddr, hw, fatValue]
  unfold thinValue
  omega

/-- On a fat word MonitorEnter is Monitor::Lock on the word's monitor. -/
theorem monitorEnter_of_fat (haddr : addr.toNat % 8 = 0) (hw : l.word.toNat = fatValue addr hash)
    {m : Monitor} (hm : l.monitor = some m) :
    monitorEnter addr t l = (m.lock t).map fun m' => { l with monitor := some m' } := by
  rw [monitorEnter, if_neg (fat_shape_ne_thin hw haddr), hm]
  rfl

/-- On a fat word MonitorExit is Monitor::Unlock on the word's monitor. -/
theorem monitorExit_of_fat (haddr : addr.toNat % 8 = 0) (hw : l.word.toNat = fatValue addr hash)
    {m : Monitor} (hm : l.monitor = some m) :
    monitorExit t l = some ((m.unlock t).1, { l with monitor := some (m.unlock t).2 }) := by
  rw [monitorExit, if_neg (fat_shape_ne_thin hw haddr), hm]
  rfl

/-- MonitorEnter on the abstract lock's terms: it blocks exactly when the
    abstract enter does, and otherwise its result stands for the abstract
    result, as long as the new count fits an `int`. -/
theorem monitorEnter_spec (haddr : addr.toNat % 8 = 0) (hh : hash < 4)
    (hrep : Represents addr hash l a) :
    (a.enter t = none ∧ monitorEnter addr t l = none) ∨
      ∃ a' l', a.enter t = some a' ∧ monitorEnter addr t l = some l' ∧
        (a'.holdCount t ≤ 2 ^ 31 → Represents addr hash l' a') := by
  cases a with
  | free =>
    right
    rcases hrep with ⟨hm, hw⟩ | ⟨hw, hm⟩
    · -- a free thin word: the CAS installs the caller's id
      have hne : LW_LOCK_OWNER l.word ≠ t.getThinLockId := by
        rw [Ne, owner_eq_iff hw (by decide) hh]
        exact Nat.ne_of_lt t.pos
      have hzero := (owner_eq_zero_iff hw (by decide) hh).mpr rfl
      refine ⟨.held t 0, { l with word := l.word ||| (t.getThinLockId <<< LW_LOCK_OWNER_SHIFT) },
        rfl, ?_, fun _ => .inl ⟨hm, by decide, ?_⟩⟩
      · rw [monitorEnter, if_pos (shape_of_thinValue hw), if_neg hne, if_pos hzero]
      · show (l.word ||| (t.getThinLockId <<< LW_LOCK_OWNER_SHIFT)).toNat = _
        rw [toNat_or_owner t (by rw [hw]; unfold thinValue; omega), hw]
        unfold thinValue
        omega
    · -- a free fat lock: Monitor::Lock takes the monitor
      refine ⟨.held t 0, { l with monitor := some ⟨some t, 0⟩ }, rfl, ?_,
        fun _ => .inr ⟨hw, by decide, rfl⟩⟩
      rw [monitorEnter_of_fat haddr hw hm]
      rfl
  | held u n =>
    rcases hrep with ⟨hm, hn, hw⟩ | ⟨hw, hn, hm⟩
    · have hshape := shape_of_thinValue hw
      by_cases hu : u = t
      · -- the thin owner counts the enter in the word, and inflates at the mask
        subst hu
        right
        have hw' : (l.word + (1 <<< LW_LOCK_COUNT_SHIFT)).toNat = thinValue (n + 1) u.id hash := by
          have hlt := u.id_lt
          rw [toNat_add_count (by rw [hw]; unfold thinValue; omega), hw]
          unfold thinValue
          omega
        refine ⟨.held u (n + 1),
          inflateIfFull addr u { l with word := l.word + (1 <<< LW_LOCK_COUNT_SHIFT) },
          by simp [ReentrantLock.enter], ?_, fun _ => ?_⟩
        · rw [monitorEnter, if_pos hshape, if_pos ((owner_eq_iff hw u.id_lt hh u).mpr rfl)]
        have hcount := count_of_thinValue hw' (by omega) u.id_lt hh
        unfold inflateIfFull
        by_cases hfull : n + 1 = 0x1FFF
        · have hmask : LW_LOCK_COUNT (l.word + (1 <<< LW_LOCK_COUNT_SHIFT)) = LW_LOCK_COUNT_MASK :=
            UInt32.toNat_inj.mp (by rw [hcount, hfull]; rfl)
          rw [if_pos hmask]
          refine .inr ⟨inflate_word haddr hw' hh, by omega, ?_⟩
          show some (Monitor.mk _ (LW_LOCK_COUNT (l.word + (1 <<< LW_LOCK_COUNT_SHIFT))).toInt32) = _
          rw [hmask, hfull]
          rfl
        · rw [if_neg (fun he => hfull (by rw [← hcount, he]; rfl))]
          exact .inl ⟨hm, by omega, hw'⟩
      · -- another thread holds the thin lock: the call spins
        left
        have hne : LW_LOCK_OWNER l.word ≠ t.getThinLockId := by
          rw [Ne, owner_eq_iff hw u.id_lt hh]
          intro he
          exact hu (by cases u; cases t; simp_all)
        have hnz : LW_LOCK_OWNER l.word ≠ 0 := by
          rw [Ne, owner_eq_zero_iff hw u.id_lt hh]
          exact Nat.ne_of_gt u.pos
        refine ⟨by simp [ReentrantLock.enter, hu], ?_⟩
        rw [monitorEnter, if_pos hshape, if_neg hne, if_neg hnz]
    · have hfat := monitorEnter_of_fat (t := t) haddr hw hm
      by_cases hu : u = t
      · -- the monitor's owner counts one more enter
        subst hu
        right
        refine ⟨.held u (n + 1), { l with monitor := some ⟨some u, Int32.ofNat n + 1⟩ },
          by simp [ReentrantLock.enter], ?_, fun hb => ?_⟩
        · rw [hfat, Monitor.lock, if_pos rfl]
          rfl
        rw [ReentrantLock.holdCount, if_pos rfl] at hb
        exact .inr ⟨hw, by omega, by rw [Int32.ofNat_add]; rfl⟩
      · -- another thread owns the monitor: Monitor::Lock blocks
        left
        refine ⟨by simp [ReentrantLock.enter, hu], ?_⟩
        rw [hfat, Monitor.lock, if_neg (by simpa using hu), if_neg (by simp)]
        rfl

/-- A spinning MonitorEnter ends only on a free thin lock, which it inflates
    for its caller. -/
theorem monitorEnterAfterSpin_spec (haddr : addr.toNat % 8 = 0) (hh : hash < 4)
    (hrep : Represents addr hash l a) {l' : ObjectLock}
    (h : monitorEnterAfterSpin addr t l = some l') :
    a = .free ∧ Represents addr hash l' (.held t 0) := by
  by_cases hfree : LW_SHAPE l.word = LW_SHAPE_THIN ∧ LW_LOCK_OWNER l.word = 0
  · rw [monitorEnterAfterSpin, if_pos hfree, Option.some_inj] at h
    subst h
    cases a with
    | free =>
      rcases hrep with ⟨hm, hw⟩ | ⟨hw, hm⟩
      · have hw' : (l.word ||| (t.getThinLockId <<< LW_LOCK_OWNER_SHIFT)).toNat =
            thinValue 0 t.id hash := by
          rw [toNat_or_owner t (by rw [hw]; unfold thinValue; omega), hw]
          unfold thinValue
          omega
        have hcount : LW_LOCK_COUNT (l.word ||| (t.getThinLockId <<< LW_LOCK_OWNER_SHIFT)) = 0 :=
          UInt32.toNat_inj.mp (count_of_thinValue hw' (by decide) t.id_lt hh)
        refine ⟨rfl, .inr ⟨inflate_word haddr hw' hh, by decide, ?_⟩⟩
        show some (Monitor.mk _ (LW_LOCK_COUNT _).toInt32) = _
        rw [hcount]
        rfl
      · exact absurd hfree.1 (fat_shape_ne_thin hw haddr)
    | held u n =>
      rcases hrep with ⟨-, -, hw⟩ | ⟨hw, -, -⟩
      · -- a held thin word names its owner
        exact absurd hfree.2 (by rw [owner_eq_zero_iff hw u.id_lt hh]; exact Nat.ne_of_gt u.pos)
      · exact absurd hfree.1 (fat_shape_ne_thin hw haddr)
  · rw [monitorEnterAfterSpin, if_neg hfree] at h
    cases h

theorem int32_ofNat_succ_ne_zero {k : Nat} (h : k + 1 < 2 ^ 31) : Int32.ofNat (k + 1) ≠ 0 := by
  intro he
  have hk := Int32.toInt_ofNat_of_lt h
  rw [he, Int32.toInt_zero] at hk
  omega

/-- MonitorExit by a thread that does not hold the lock: FailedUnlock, and
    the word and the monitor stay as they are. -/
theorem monitorExit_of_holdCount_eq_zero (haddr : addr.toNat % 8 = 0) (hh : hash < 4)
    (hrep : Represents addr hash l a) (hheld : a.holdCount t = 0) :
    monitorExit t l = some (false, l) := by
  cases a with
  | free =>
    rcases hrep with ⟨-, hw⟩ | ⟨hw, hm⟩
    · have hne : LW_LOCK_OWNER l.word ≠ t.getThinLockId := by
        rw [Ne, owner_eq_iff hw (by decide) hh]
        exact Nat.ne_of_lt t.pos
      rw [monitorExit, if_pos (shape_of_thinValue hw), if_neg hne]
    · rw [monitorExit_of_fat haddr hw hm]
      rcases l with ⟨w, mon⟩
      cases hm
      rfl
  | held u n =>
    have hu : u ≠ t := fun hu => by simp [ReentrantLock.holdCount, hu] at hheld
    rcases hrep with ⟨-, -, hw⟩ | ⟨hw, -, hm⟩
    · have hne : LW_LOCK_OWNER l.word ≠ t.getThinLockId := by
        rw [Ne, owner_eq_iff hw u.id_lt hh]
        intro he
        exact hu (by cases u; cases t; simp_all)
      rw [monitorExit, if_pos (shape_of_thinValue hw), if_neg hne]
    · rw [monitorExit_of_fat haddr hw hm]
      rcases l with ⟨w, mon⟩
      cases hm
      simp [Monitor.unlock, hu]

/-- MonitorExit on the abstract lock's terms: it always returns, with the
    abstract exit's answer, and its result stands for the abstract result. -/
theorem monitorExit_spec (haddr : addr.toNat % 8 = 0) (hh : hash < 4)
    (hrep : Represents addr hash l a) :
    ∃ l', monitorExit t l = some ((a.exit t).1, l') ∧ Represents addr hash l' (a.exit t).2 := by
  by_cases hheld : a.holdCount t = 0
  · rw [ReentrantLock.exit_of_holdCount_eq_zero hheld]
    exact ⟨l, monitorExit_of_holdCount_eq_zero haddr hh hrep hheld, hrep⟩
  · -- the holder's exit: the lock is held by t
    cases a with
    | free => simp [ReentrantLock.holdCount] at hheld
    | held u n =>
      have hu : u = t := by
        by_contra hu
        simp [ReentrantLock.holdCount, hu] at hheld
      subst hu
      rcases hrep with ⟨hm, hn, hw⟩ | ⟨hw, hn, hm⟩
      · have hshape := shape_of_thinValue hw
        have hown := (owner_eq_iff hw u.id_lt hh u).mpr rfl
        cases n with
        | zero =>
          -- the last exit clears all bits but the hash state
          have hcount : LW_LOCK_COUNT l.word = 0 :=
            UInt32.toNat_inj.mp (count_of_thinValue hw (by decide) u.id_lt hh)
          have hex : ReentrantLock.exit u (.held u 0) = (true, .free) := by
            simp [ReentrantLock.exit]
          rw [hex]
          refine ⟨{ l with word := l.word &&& (LW_HASH_STATE_MASK <<< LW_HASH_STATE_SHIFT) }, ?_,
            .inl ⟨hm, ?_⟩⟩
          · rw [monitorExit, if_pos hshape, if_pos hown, if_pos hcount]
          · show (l.word &&& _).toNat = _
            rw [toNat_and_hash_bits, hw]
            unfold thinValue
            omega
        | succ k =>
          -- an inner exit counts down in the word
          have hcount : LW_LOCK_COUNT l.word ≠ 0 := by
            intro he
            have hc := count_of_thinValue hw (by omega) u.id_lt hh
            rw [he] at hc
            cases hc
          have hex : ReentrantLock.exit u (.held u (k + 1)) = (true, .held u k) := by
            simp [ReentrantLock.exit]
          rw [hex]
          refine ⟨{ l with word := l.word - (1 <<< LW_LOCK_COUNT_SHIFT) }, ?_,
            .inl ⟨hm, by omega, ?_⟩⟩
          · rw [monitorExit, if_pos hshape, if_pos hown, if_neg hcount]
          · show (l.word - _).toNat = _
            rw [toNat_sub_count (by rw [hw]; unfold thinValue; omega), hw]
            unfold thinValue
            omega
      · have hfat := monitorExit_of_fat (t := u) haddr hw hm
        cases n with
        | zero =>
          -- the last exit gives the monitor up
          have hex : ReentrantLock.exit u (.held u 0) = (true, .free) := by
            simp [ReentrantLock.exit]
          rw [hex]
          refine ⟨{ l with monitor := some ⟨none, 0⟩ }, ?_, .inr ⟨hw, rfl⟩⟩
          rw [hfat]
          simp [Monitor.unlock]
        | succ k =>
          have hex : ReentrantLock.exit u (.held u (k + 1)) = (true, .held u k) := by
            simp [ReentrantLock.exit]
          rw [hex]
          refine ⟨{ l with monitor := some ⟨some u, Int32.ofNat k⟩ }, ?_, .inr ⟨hw, by omega, rfl⟩⟩
          rw [hfat, Monitor.unlock, if_pos rfl, if_neg (int32_ofNat_succ_ne_zero hn)]
          simp [Int32.ofNat_add]

end Refinement

/-! ### Runs of calls -/

/-- A whole call on the object's lock by one thread: MonitorEnter, either
    taken at once or at the end of a spin on a thin lock that another thread
    held; or MonitorExit. -/
inductive LockCall
  | enter (t : ThinLockId)
  | enterAfterSpin (t : ThinLockId)
  | exit (t : ThinLockId)
  deriving DecidableEq

/-- The object's lock, and for each thread its enters less its successful
    exits: the holds the Java rules give it, which the source keeps only in
    the word or the monitor. -/
structure LockHistory where
  lock : ObjectLock
  held : ThinLockId → Nat

/-- One call: the lock as the source leaves it, with the holds counted. A
    call that would block has no step. -/
def lockStep (addr : UInt32) : LockCall → LockHistory → Option LockHistory
  | .enter t, g => (monitorEnter addr t g.lock).map fun l =>
      { lock := l, held := Function.update g.held t (g.held t + 1) }
  | .enterAfterSpin t, g => (monitorEnterAfterSpin addr t g.lock).map fun l =>
      { lock := l, held := Function.update g.held t (g.held t + 1) }
  | .exit t, g => (monitorExit t g.lock).map fun r =>
      { lock := r.2, held := if r.1 then Function.update g.held t (g.held t - 1) else g.held }

/-- A new object's lock: a thin word with no owner and no count, and no
    monitor. -/
def ObjectLock.IsUnlockedThin (l : ObjectLock) : Prop :=
  l.monitor = none ∧ LW_SHAPE l.word = LW_SHAPE_THIN ∧ LW_LOCK_OWNER l.word = 0 ∧
    LW_LOCK_COUNT l.word = 0

instance : DecidablePred ObjectLock.IsUnlockedThin := fun l => by
  unfold ObjectLock.IsUnlockedThin
  infer_instance

/-- No thread owns the lock: a thin word names no owner, and a fat word's
    monitor has none. -/
def ObjectLock.IsUnowned (l : ObjectLock) : Prop :=
  if LW_SHAPE l.word = LW_SHAPE_THIN then LW_LOCK_OWNER l.word = 0
  else ∃ m, l.monitor = some m ∧ m.owner_ = none

/-- The calls of all threads on one object, whose monitor, once it has one,
    is at `addr`. -/
def lockSystem (addr : UInt32) : System LockHistory LockCall :=
  System.ofFun (fun g => g.lock.IsUnlockedThin ∧ ∀ t, g.held t = 0) (lockStep addr)

/-- The runs in which no thread holds the lock more than `2 ^ 31` times, so
    that lock_count_, an `int`, can count the holds. -/
def boundedLockSystem (addr : UInt32) : System LockHistory LockCall :=
  (lockSystem addr).restrict fun g => ∀ t, g.held t ≤ 2 ^ 31

/-- What the word and the monitor record of the holds: a thin word names the
    holder (0 if there is none) and counts its holds less one; a fat word
    points to the monitor, whose owner_ and lock_count_ say the same. -/
def RecordsHolds (addr : UInt32) (l : ObjectLock) (held : ThinLockId → Nat) : Prop :=
  if LW_SHAPE l.word = LW_SHAPE_THIN then
    (∀ t, 0 < held t →
      LW_LOCK_OWNER l.word = t.getThinLockId ∧ (LW_LOCK_COUNT l.word).toNat = held t - 1) ∧
    ((∀ t, held t = 0) → LW_LOCK_OWNER l.word = 0 ∧ LW_LOCK_COUNT l.word = 0)
  else
    LW_MONITOR l.word = addr ∧ ∃ m, l.monitor = some m ∧
      (∀ t, 0 < held t → m.owner_ = some t ∧ m.lock_count_.toInt = (held t : Int) - 1) ∧
      ((∀ t, held t = 0) → m.owner_ = none ∧ m.lock_count_ = 0)

/-- The invariant of the runs: the lock stands for an abstract lock whose
    holds are the counted ones. -/
def LockInv (addr : UInt32) (hash : Nat) (g : LockHistory) : Prop :=
  ∃ a, Represents addr hash g.lock a ∧ ∀ t, g.held t = a.holdCount t

section Invariant

variable {addr : UInt32} {hash : Nat} {g g' : LockHistory} {t : ThinLockId}

theorem word_of_isUnlockedThin {l : ObjectLock} (h : l.IsUnlockedThin) :
    l.word.toNat = thinValue 0 0 (LW_HASH_STATE l.word).toNat := by
  rcases h with ⟨-, hs, ho, hc⟩
  have hs' : l.word.toNat % 2 = 0 := by rw [← toNat_LW_SHAPE, hs]; rfl
  have ho' : l.word.toNat / 2 ^ 3 % 2 ^ 16 = 0 := by rw [← toNat_LW_LOCK_OWNER, ho]; rfl
  have hc' : l.word.toNat / 2 ^ 19 % 2 ^ 13 = 0 := by rw [← toNat_LW_LOCK_COUNT, hc]; rfl
  have hlt := l.word.toNat_lt
  rw [toNat_LW_HASH_STATE]
  unfold thinValue
  omega

theorem hash_state_lt (w : UInt32) : (LW_HASH_STATE w).toNat < 4 := by
  rw [toNat_LW_HASH_STATE]
  omega

theorem hash_of_represents {l : ObjectLock} {a : ReentrantLock ThinLockId}
    (haddr : addr.toNat % 8 = 0) (hh : hash < 4) (hrep : Represents addr hash l a) :
    (LW_HASH_STATE l.word).toNat = hash := by
  cases a with
  | free =>
    rcases hrep with ⟨-, hw⟩ | ⟨hw, -⟩
    · exact hash_of_thinValue hw hh
    · exact hash_of_fatValue hw haddr hh
  | held u n =>
    rcases hrep with ⟨-, -, hw⟩ | ⟨hw, -, -⟩
    · exact hash_of_thinValue hw hh
    · exact hash_of_fatValue hw haddr hh

theorem lockInv_init (h : g.lock.IsUnlockedThin) (hheld : ∀ t, g.held t = 0) :
    LockInv addr (LW_HASH_STATE g.lock.word).toNat g :=
  ⟨.free, .inl ⟨h.1, word_of_isUnlockedThin h⟩, fun t => hheld t⟩

/-- Counting a call's holds in the ghost follows the abstract count: both
    change only at the caller. -/
theorem held_update {held : ThinLockId → Nat} {a a' : ReentrantLock ThinLockId} {f : Nat → Nat}
    (h : ∀ u, held u = a.holdCount u)
    (h' : ∀ u, a'.holdCount u = if u = t then f (a.holdCount u) else a.holdCount u)
    (u : ThinLockId) : Function.update held t (f (held t)) u = a'.holdCount u := by
  rw [h']
  by_cases hu : u = t
  · subst hu
    rw [Function.update_self, if_pos rfl, h]
  · rw [Function.update_of_ne hu, if_neg hu, h]

theorem LockInv.step (haddr : addr.toNat % 8 = 0) (hh : hash < 4) (hinv : LockInv addr hash g)
    {c : LockCall} (hstep : lockStep addr c g = some g') (hbound : ∀ t, g'.held t ≤ 2 ^ 31) :
    LockInv addr hash g' := by
  rcases hinv with ⟨a, hrep, hheld⟩
  cases c with
  | enter t =>
    rcases monitorEnter_spec (t := t) haddr hh hrep with ⟨-, hnone⟩ | ⟨a', l', henter, hl', hrep'⟩
    · rw [lockStep, hnone] at hstep
      cases hstep
    · rw [lockStep, hl', Option.map_some, Option.some_inj] at hstep
      subst hstep
      have hheld' := held_update hheld (ReentrantLock.holdCount_enter henter)
      refine ⟨a', hrep' ?_, hheld'⟩
      rw [← hheld' t]
      exact hbound t
  | enterAfterSpin t =>
    cases hl' : monitorEnterAfterSpin addr t g.lock with
    | none =>
      rw [lockStep, hl'] at hstep
      cases hstep
    | some l' =>
      rcases monitorEnterAfterSpin_spec haddr hh hrep hl' with ⟨rfl, hrep'⟩
      rw [lockStep, hl', Option.map_some, Option.some_inj] at hstep
      subst hstep
      exact ⟨.held t 0, hrep', held_update hheld (ReentrantLock.holdCount_enter rfl)⟩
  | exit t =>
    rcases monitorExit_spec (t := t) haddr hh hrep with ⟨l', hl', hrep'⟩
    rw [lockStep, hl', Option.map_some, Option.some_inj] at hstep
    subst hstep
    refine ⟨(a.exit t).2, hrep', ?_⟩
    by_cases hok : (a.exit t).1 = true
    · rw [if_pos hok]
      exact held_update (f := fun n => n - 1) hheld fun u => ReentrantLock.holdCount_exit t u a
    · -- a failed exit: the caller held nothing, and nothing changes
      have hzero : a.holdCount t = 0 := by
        by_contra hne
        exact hok (ReentrantLock.exit_fst_iff.mpr (Nat.pos_of_ne_zero hne))
      rw [if_neg hok, ReentrantLock.exit_of_holdCount_eq_zero hzero]
      exact hheld

theorem lockInv_reach (haddr : addr.toNat % 8 = 0) (hg : (boundedLockSystem addr).Reach g) :
    ∃ hash < 4, LockInv addr hash g := by
  refine System.Inductive.reach (I := fun g => ∃ hash < 4, LockInv addr hash g) ⟨?_, ?_⟩ hg
  · intro g hinit
    exact ⟨_, hash_state_lt _, lockInv_init hinit.1.1 hinit.1.2⟩
  · intro c g g' hinv hstep
    rcases hinv with ⟨hash, hh, hinv⟩
    exact ⟨hash, hh, hinv.step haddr hh hstep.1 hstep.2⟩

theorem LockInv.held_eq (hinv : LockInv addr hash g) (ht : 0 < g.held t) {u : ThinLockId}
    (hu : 0 < g.held u) : t = u := by
  rcases hinv with ⟨a, -, hheld⟩
  rw [hheld] at ht hu
  exact ReentrantLock.eq_of_holdCount_pos ht hu

theorem LockInv.recordsHolds (haddr : addr.toNat % 8 = 0) (hh : hash < 4)
    (hinv : LockInv addr hash g) : RecordsHolds addr g.lock g.held := by
  rcases hinv with ⟨a, hrep, hheld⟩
  cases a with
  | free =>
    -- nobody holds a free lock: only the second half of each shape says something
    have hzero : ∀ t, ¬ 0 < g.held t := fun t ht => by
      rw [hheld] at ht
      exact Nat.lt_irrefl 0 ht
    rcases hrep with ⟨-, hw⟩ | ⟨hw, hm⟩
    · rw [RecordsHolds, if_pos (shape_of_thinValue hw)]
      refine ⟨fun t ht => absurd ht (hzero t), fun _ => ⟨?_, ?_⟩⟩
      · exact (owner_eq_zero_iff hw (by decide) hh).mpr rfl
      · exact UInt32.toNat_inj.mp (count_of_thinValue hw (by decide) (by decide) hh)
    · rw [RecordsHolds, if_neg (fat_shape_ne_thin hw haddr)]
      exact ⟨monitor_of_fatValue hw haddr hh, _, hm, fun t ht => absurd ht (hzero t),
        fun _ => ⟨rfl, rfl⟩⟩
  | held u n =>
    -- the holder is u, with n + 1 holds, and nobody else holds the lock
    have hu : g.held u = n + 1 := by rw [hheld, ReentrantLock.holdCount, if_pos rfl]
    have howner : ∀ t, 0 < g.held t → t = u := fun t ht =>
      LockInv.held_eq ⟨_, hrep, hheld⟩ ht (by rw [hu]; exact Nat.succ_pos n)
    have hsome : ¬ ∀ t, g.held t = 0 := fun h => by
      have := h u
      omega
    rcases hrep with ⟨-, hn, hw⟩ | ⟨hw, hn, hm⟩
    · rw [RecordsHolds, if_pos (shape_of_thinValue hw)]
      refine ⟨fun t ht => ?_, fun h => absurd h hsome⟩
      rcases howner t ht
      refine ⟨(owner_eq_iff hw u.id_lt hh u).mpr rfl, ?_⟩
      rw [count_of_thinValue hw (by omega) u.id_lt hh, hu]
      rfl
    · rw [RecordsHolds, if_neg (fat_shape_ne_thin hw haddr)]
      refine ⟨monitor_of_fatValue hw haddr hh, _, hm, fun t ht => ?_, fun h => absurd h hsome⟩
      rcases howner t ht
      refine ⟨rfl, ?_⟩
      rw [Int32.toInt_ofNat_of_lt hn, hu]
      omega

theorem hash_state_step (haddr : addr.toNat % 8 = 0) (hg : (boundedLockSystem addr).Reach g)
    {c : LockCall} (hstep : (boundedLockSystem addr).step c g g') :
    LW_HASH_STATE g'.lock.word = LW_HASH_STATE g.lock.word := by
  rcases lockInv_reach haddr hg with ⟨hash, hh, hinv⟩
  have hinv' := hinv.step haddr hh hstep.1 hstep.2
  rcases hinv with ⟨a, hrep, -⟩
  rcases hinv' with ⟨a', hrep', -⟩
  apply UInt32.toNat_inj.mp
  rw [hash_of_represents haddr hh hrep, hash_of_represents haddr hh hrep']

end Invariant

/-! ### Nested enters and exits -/

section Runs

variable {addr : UInt32} {g g' : LockHistory} {t : ThinLockId}

theorem held_of_lockStep_enter {c : LockCall} (hstep : lockStep addr c g = some g')
    (hc : c = .enter t ∨ c = .enterAfterSpin t) :
    g'.held = Function.update g.held t (g.held t + 1) := by
  rcases hc with rfl | rfl
  · rcases Option.map_eq_some_iff.mp hstep with ⟨l, -, rfl⟩
    rfl
  · rcases Option.map_eq_some_iff.mp hstep with ⟨l, -, rfl⟩
    rfl

/-- An exit by a holder succeeds and gives up one hold. -/
theorem held_of_lockStep_exit (haddr : addr.toNat % 8 = 0) (hg : (boundedLockSystem addr).Reach g)
    (ht : 0 < g.held t) (hstep : lockStep addr (.exit t) g = some g') :
    g'.held = Function.update g.held t (g.held t - 1) := by
  rcases lockInv_reach haddr hg with ⟨hash, hh, a, hrep, hheld⟩
  rcases monitorExit_spec (t := t) haddr hh hrep with ⟨l', hl', -⟩
  have hok : (a.exit t).1 = true := ReentrantLock.exit_fst_iff.mpr (by rw [← hheld]; exact ht)
  rw [lockStep, hl', Option.map_some, Option.some_inj] at hstep
  rw [← hstep, hok, if_pos rfl]

theorem held_of_run_enters {es : List LockCall}
    (hes : ∀ c ∈ es, c = .enter t ∨ c = .enterAfterSpin t)
    (hrun : (boundedLockSystem addr).Run g es g') :
    g'.held t = g.held t + es.length ∧ ∀ u, u ≠ t → g'.held u = g.held u := by
  induction hrun with
  | nil => exact ⟨rfl, fun _ _ => rfl⟩
  | @cons g g₁ g' c cs hstep _ ih =>
    have h₁ := held_of_lockStep_enter hstep.1 (hes c List.mem_cons_self)
    rcases ih (fun c hc => hes c (List.mem_cons_of_mem _ hc)) with ⟨ht, hu⟩
    refine ⟨?_, fun u hne => ?_⟩
    · rw [ht, h₁, Function.update_self, List.length_cons]
      omega
    · rw [hu u hne, h₁, Function.update_of_ne hne]

/-- The induction is on the number of exits; each starts from a reachable
    state, where the caller still holds the lock. -/
theorem held_of_run_exits (haddr : addr.toNat % 8 = 0) (k : Nat)
    (hg : (boundedLockSystem addr).Reach g) (hk : k ≤ g.held t)
    (hrun : (boundedLockSystem addr).Run g (List.replicate k (.exit t)) g') :
    g'.held t = g.held t - k ∧ ∀ u, u ≠ t → g'.held u = g.held u := by
  induction k generalizing g with
  | zero =>
    cases hrun
    exact ⟨rfl, fun _ _ => rfl⟩
  | succ k ih =>
    rw [List.replicate_succ] at hrun
    cases hrun with
    | cons hstep hrest =>
      have h₁ := held_of_lockStep_exit haddr hg (by omega) hstep.1
      rcases ih (hg.step hstep) (by rw [h₁, Function.update_self]; omega) hrest with ⟨ht, hu⟩
      refine ⟨?_, fun u hne => ?_⟩
      · rw [ht, h₁, Function.update_self]
        omega
      · rw [hu u hne, h₁, Function.update_of_ne hne]

theorem isUnowned_of_recordsHolds {l : ObjectLock} {held : ThinLockId → Nat}
    (hrec : RecordsHolds addr l held) (hzero : ∀ u, held u = 0) : l.IsUnowned := by
  unfold RecordsHolds at hrec
  unfold ObjectLock.IsUnowned
  by_cases hshape : LW_SHAPE l.word = LW_SHAPE_THIN
  · rw [if_pos hshape] at hrec ⊢
    exact (hrec.2 hzero).1
  · rw [if_neg hshape] at hrec ⊢
    rcases hrec with ⟨-, m, hm, -, hfree⟩
    exact ⟨m, hm, (hfree hzero).1⟩

/-- A thread that enters n times and then exits n times leaves the lock with
    nobody holding it, whether the enters stayed thin or inflated the lock. -/
theorem unowned_of_run_enters_exits (haddr : addr.toNat % 8 = 0)
    (hg : (boundedLockSystem addr).Reach g) {n : Nat} (hn : 0 < n) (ht : g.held t = 0)
    {es : List LockCall} (hlen : es.length = n)
    (hes : ∀ c ∈ es, c = .enter t ∨ c = .enterAfterSpin t)
    (hrun : (boundedLockSystem addr).Run g (es ++ List.replicate n (.exit t)) g') :
    (∀ u, g'.held u = 0) ∧ g'.lock.IsUnowned := by
  rcases System.Run.of_append hrun with ⟨g₁, hrun₁, hrun₂⟩
  have hg₁ := hrun₁.reach hg
  rcases held_of_run_enters hes hrun₁ with ⟨ht₁, -⟩
  rw [ht, hlen, Nat.zero_add] at ht₁
  -- after the enters t holds the lock, so nobody else does
  have hothers : ∀ u, u ≠ t → g₁.held u = 0 := by
    intro u hne
    rcases lockInv_reach haddr hg₁ with ⟨hash, -, hinv⟩
    by_contra hpos
    exact hne (hinv.held_eq (Nat.pos_of_ne_zero hpos) (by omega))
  rcases held_of_run_exits haddr n hg₁ (by omega) hrun₂ with ⟨ht₂, hu₂⟩
  have hzero : ∀ u, g'.held u = 0 := by
    intro u
    by_cases hne : u = t
    · subst hne
      omega
    · rw [hu₂ u hne, hothers u hne]
  rcases lockInv_reach haddr (hrun₂.reach hg₁) with ⟨hash, hh, hinv⟩
  exact ⟨hzero, isUnowned_of_recordsHolds (hinv.recordsHolds haddr hh) hzero⟩

/-- Any thread can hold the lock up to 2^31 times, while nobody else does. -/
theorem reach_holds (haddr : addr.toNat % 8 = 0) (t : ThinLockId) (k : Nat) (hk : k ≤ 2 ^ 31) :
    ∃ g, (boundedLockSystem addr).Reach g ∧ g.held t = k ∧ ∀ u, u ≠ t → g.held u = 0 := by
  induction k with
  | zero =>
    exact ⟨⟨⟨0, none⟩, fun _ => 0⟩,
      .init ⟨⟨by decide, fun _ => rfl⟩, fun _ => Nat.zero_le _⟩, rfl, fun _ _ => rfl⟩
  | succ k ih =>
    rcases ih (by omega) with ⟨g, hg, ht, hu⟩
    rcases lockInv_reach haddr hg with ⟨hash, hh, a, hrep, hheld⟩
    -- nobody else holds the lock, so the abstract enter, and MonitorEnter, proceed
    have hsome : (a.enter t).isSome = true := ReentrantLock.enter_isSome_iff.mpr fun u hne => by
      rw [← hheld]
      exact hu u hne
    rcases monitorEnter_spec (t := t) haddr hh hrep with ⟨hnone, -⟩ | ⟨a', l', -, hl', -⟩
    · rw [hnone] at hsome
      cases hsome
    · have hstep : lockStep addr (.enter t) g = some ⟨l', Function.update g.held t (k + 1)⟩ := by
        rw [lockStep, hl', ht]
        rfl
      refine ⟨_, hg.step (l := .enter t) ⟨hstep, fun u => ?_⟩, Function.update_self .., fun u hne => ?_⟩
      · show Function.update g.held t (k + 1) u ≤ 2 ^ 31
        by_cases hne : u = t
        · subst hne
          rw [Function.update_self]
          exact hk
        · rw [Function.update_of_ne hne, hu u hne]
          exact Nat.zero_le _
      · show Function.update g.held t (k + 1) u = 0
        rw [Function.update_of_ne hne, hu u hne]

/-- The 2^31 + 1-th hold overflows lock_count_, an `int`: it wraps to
    INT_MIN, and the monitor no longer records the holds. -/
theorem reach_not_recordsHolds (haddr : addr.toNat % 8 = 0) (t : ThinLockId) :
    ∃ g, (lockSystem addr).Reach g ∧ g.held t = 2 ^ 31 + 1 ∧ ¬ RecordsHolds addr g.lock g.held := by
  rcases reach_holds haddr t (2 ^ 31) (Nat.le_refl _) with ⟨g, hg, ht, -⟩
  rcases lockInv_reach haddr hg with ⟨hash, hh, a, hrep, hheld⟩
  cases a with
  | free =>
    rw [hheld] at ht
    cases ht
  | held u n =>
    -- 2^31 holds are past the thin count: the lock is fat, and lock_count_ is INT_MAX
    have hut : u = t := by
      by_contra hne
      rw [hheld, ReentrantLock.holdCount, if_neg hne] at ht
      cases ht
    subst hut
    have hn : n = 2 ^ 31 - 1 := by
      rw [hheld, ReentrantLock.holdCount, if_pos rfl] at ht
      omega
    subst hn
    rcases hrep with ⟨-, hsmall, -⟩ | ⟨hw, -, hm⟩
    · omega
    · have hstep : lockStep addr (.enter u) g = some
          ⟨{ g.lock with monitor := some ⟨some u, Int32.ofNat (2 ^ 31 - 1) + 1⟩ },
            Function.update g.held u (2 ^ 31 + 1)⟩ := by
        rw [lockStep, monitorEnter_of_fat haddr hw hm, Monitor.lock, if_pos rfl, ht]
        rfl
      refine ⟨_, (System.Reach.of_restrict hg).1.step (l := .enter u) hstep,
        Function.update_self .., ?_⟩
      rw [RecordsHolds, if_neg (fat_shape_ne_thin hw haddr)]
      intro hrec
      rcases hrec with ⟨-, m, hm', hholds, -⟩
      cases hm'
      have hwrap : (Int32.ofNat (2 ^ 31 - 1) + 1).toInt = -2 ^ 31 := by decide
      have hpos : 0 < Function.update g.held u (2 ^ 31 + 1) u := by
        rw [Function.update_self]
        omega
      have hcount : (Int32.ofNat (2 ^ 31 - 1) + 1).toInt =
          (Function.update g.held u (2 ^ 31 + 1) u : Int) - 1 := (hholds u hpos).2
      rw [hwrap, Function.update_self] at hcount
      omega

end Runs

/-- For runs in which no thread holds the lock more than 2^31 times, every
    reachable state and every call from it keep the lock word honest. -/
theorem lockWord_invariant (addr : UInt32) (haddr : addr.toNat % 8 = 0) (g : LockHistory)
    (hg : (boundedLockSystem addr).Reach g) :
    (∀ t u, 0 < g.held t → 0 < g.held u → t = u) ∧
    RecordsHolds addr g.lock g.held ∧
    (∀ c g', (boundedLockSystem addr).step c g g' →
      LW_HASH_STATE g'.lock.word = LW_HASH_STATE g.lock.word) ∧
    (∀ t n (es : List LockCall) g', 0 < n → g.held t = 0 → es.length = n →
      (∀ c ∈ es, c = .enter t ∨ c = .enterAfterSpin t) →
      (boundedLockSystem addr).Run g (es ++ List.replicate n (.exit t)) g' →
      (∀ u, g'.held u = 0) ∧ g'.lock.IsUnowned) ∧
    (∀ t, g.held t = 0 → monitorExit t g.lock = some (false, g.lock)) := by
  rcases lockInv_reach haddr hg with ⟨hash, hh, hinv⟩
  refine ⟨fun t u ht hu => hinv.held_eq ht hu, hinv.recordsHolds haddr hh,
    fun c g' hstep => hash_state_step haddr hg hstep, ?_, ?_⟩
  · intro t n es g' hn ht hlen hes hrun
    exact unowned_of_run_enters_exits haddr hg hn ht hlen hes hrun
  · intro t ht
    rcases hinv with ⟨a, hrep, hheld⟩
    exact monitorExit_of_holdCount_eq_zero haddr hh hrep (by rw [← hheld]; exact ht)

/-- The threads with thin lock ids 1 and 2. -/
def threadA : ThinLockId := ⟨1, by decide, by decide⟩

def threadB : ThinLockId := ⟨2, by decide, by decide⟩

/-- Two threads on one object: `threadA` takes and releases the thin lock,
    `threadB`, which spun on it meanwhile, takes it and inflates it, and
    enters twice more, into the monitor. -/
theorem lockWord_invariant_contended :
    ∃ g, (boundedLockSystem 0x1000).Reach g ∧ LW_SHAPE g.lock.word = LW_SHAPE_FAT ∧ g.held threadB = 3 ∧
      (∀ t u, 0 < g.held t → 0 < g.held u → t = u) ∧ RecordsHolds 0x1000 g.lock g.held := by
  have h0 : (boundedLockSystem 0x1000).Reach ⟨⟨0, none⟩, fun _ => 0⟩ :=
    .init ⟨⟨by decide, fun _ => rfl⟩, fun _ => Nat.zero_le _⟩
  -- each step is the model's own, and no thread holds the lock more than three times
  have hg := ((((h0.step (l := .enter threadA) ⟨show _ = some _ from rfl, fun t => by
      simp only [Function.update_apply]; split_ifs <;> simp⟩).step
    (l := .exit threadA) ⟨show _ = some _ from rfl, fun t => by
      simp only [Function.update_apply]; split_ifs <;> simp⟩).step
    (l := .enterAfterSpin threadB) ⟨show _ = some _ from rfl, fun t => by
      simp only [Function.update_apply]; split_ifs <;> simp⟩).step
    (l := .enter threadB) ⟨show _ = some _ from rfl, fun t => by
      simp only [Function.update_apply]; split_ifs <;> simp⟩).step
    (l := .enter threadB) ⟨show _ = some _ from rfl, fun t => by
      simp only [Function.update_apply]; split_ifs <;> simp⟩
  have hinv := lockWord_invariant 0x1000 (by decide) _ hg
  exact ⟨_, hg, rfl, rfl, hinv.1, hinv.2.1⟩

theorem lockWord_count_overflow :
    ∃ g, (lockSystem 0x1000).Reach g ∧ ¬ RecordsHolds 0x1000 g.lock g.held := by
  rcases reach_not_recordsHolds (show (0x1000 : UInt32).toNat % 8 = 0 by decide)
    ⟨1, Nat.one_pos, by decide⟩ with ⟨g, hg, -, hrec⟩
  exact ⟨g, hg, hrec⟩

end ArtRuntime
