import ArtRuntime.Base.Mutex

/-!
# Futex Reader-Writer Mutexes

The ART_USE_FUTEXES paths of ReaderWriterMutex::ExclusiveLock,
ExclusiveUnlock, SharedLock, SharedTryLock and SharedUnlock (mutex.cc,
mutex-inl.h), one atomic access at a time, as for `Mutex`. state_ is -1 while
a writer holds the lock and the number of readers otherwise. A writer that
finds the lock taken counts itself in num_pending_writers_ and waits on
whatever value of state_ it read; a reader that finds it held exclusively
counts itself in num_pending_readers_ and waits on -1. ExclusiveUnlock, and
SharedUnlock on the transition to 0, read both counters after their CAS and
call FUTEX_WAKE if either is positive; FUTEX_WAKE wakes one sleeper, as in
`Mutex`.

## Main definitions

* `RwPc`: Where a thread is in the five calls.
* `RwState`, `rwStep`, `rwSystem`: The threads on one reader-writer mutex.
* `RwInv`: The invariant.

## Theorems

* `rwInv_reach`: state_ is -1 with one writer and no reader, or the number of
  readers with no writer; each pending counter counts its waiters; and a
  sleeper while the lock is free has a thread that will wake it or take the
  lock.
* `futexLocks_correct`: Both kinds of mutex, in every reachable state.
-/

namespace ArtRuntime

open TransitionSystem Count

/-- The two counters of waiting threads. -/
inductive Pending
  | readers
  | writers
  deriving DecidableEq

/-- The counter the other unlock reads second. -/
def Pending.other : Pending → Pending
  | readers => writers
  | writers => readers

/-- Where a thread is in ReaderWriterMutex's calls. -/
inductive RwPc
  /-- Outside the calls, holding nothing. -/
  | idle
  /-- ExclusiveLock: about to read state_. -/
  | xRead
  /-- ExclusiveLock: read 0, about to CAS state_ from 0 to -1. -/
  | xCas
  /-- ExclusiveLock: read `v`, not 0; about to increment num_pending_writers_. -/
  | xInc (v : Int)
  /-- ExclusiveLock: about to FUTEX_WAIT(state_, v). -/
  | xWait (v : Int)
  /-- A writer asleep in FUTEX_WAIT. -/
  | xAsleep
  /-- ExclusiveLock: FUTEX_WAIT has returned; about to decrement. -/
  | xDec
  /-- Holding the lock exclusively. -/
  | xHeld
  /-- ExclusiveUnlock: about to read state_. -/
  | xuRead
  /-- ExclusiveUnlock: read -1, about to CAS state_ from -1 to 0. -/
  | xuCas
  /-- SharedLock: about to read state_. -/
  | sRead
  /-- SharedLock: read `v ≥ 0`, about to CAS state_ from v to v + 1. -/
  | sCas (v : Int)
  /-- SharedLock: read `v < 0`; about to increment num_pending_readers_. -/
  | sInc (v : Int)
  /-- SharedLock: about to FUTEX_WAIT(state_, v). -/
  | sWait (v : Int)
  /-- A reader asleep in FUTEX_WAIT. -/
  | sAsleep
  /-- SharedLock: FUTEX_WAIT has returned; about to decrement. -/
  | sDec
  /-- SharedTryLock: about to read state_. -/
  | stRead
  /-- SharedTryLock: read `v ≥ 0`, about to CAS state_ from v to v + 1. -/
  | stCas (v : Int)
  /-- Holding the lock shared. -/
  | sHeld
  /-- SharedUnlock: about to read state_. -/
  | suRead
  /-- SharedUnlock: read `v > 0`, about to CAS state_ from v to v - 1. -/
  | suCas (v : Int)
  /-- An unlock past its CAS, about to read counter `k`, and then the other
      one if `thenOther`. -/
  | check (k : Pending) (thenOther : Bool)
  /-- An unlock about to FUTEX_WAKE(state_, -1). -/
  | wake
  deriving DecidableEq

namespace RwPc

/-- Holding the lock exclusively, up to the CAS of ExclusiveUnlock. -/
def holdsEx : RwPc → Bool
  | xHeld | xuRead | xuCas => true
  | _ => false

/-- Holding the lock shared, up to the CAS of SharedUnlock. -/
def holdsSh : RwPc → Bool
  | sHeld | suRead | suCas _ => true
  | _ => false

/-- Counted in the pending counter `k`. -/
def waits : RwPc → Pending → Bool
  | xWait _, .writers | xAsleep, .writers | xDec, .writers => true
  | sWait _, .readers | sAsleep, .readers | sDec, .readers => true
  | _, _ => false

/-- Asleep in FUTEX_WAIT, and in which counter. -/
def sleeper : RwPc → Option Pending
  | xAsleep => some .writers
  | sAsleep => some .readers
  | _ => none

/-- Awake in the lock's code and bound to take the lock, or to wake a
    sleeper counted in `k`. -/
def covers : RwPc → Pending → Bool
  | xRead, _ | xCas, _ | xInc _, _ | xWait _, _ | xDec, _ => true
  | sRead, _ | sCas _, _ | sInc _, _ | sWait _, _ | sDec, _ => true
  | stRead, _ | stCas _, _ => true
  | check _ true, _ | wake, _ => true
  | check k false, k' => k == k'
  | _, _ => false

/-- What the thread read of state_ before its next access. -/
def valueOk : RwPc → Prop
  | xInc v | xWait v => v ≠ 0
  | sCas v | stCas v => 0 ≤ v
  | sInc v | sWait v => v < 0
  | suCas v => 0 < v
  | _ => True

/-- A move from `q` to `p` that changes no shared word and keeps the
    invariant. -/
def quietMove (q p : RwPc) : Bool :=
  p.holdsEx == q.holdsEx && p.holdsSh == q.holdsSh && p.waits .readers == q.waits .readers &&
    p.waits .writers == q.waits .writers &&
    (!q.covers .readers || p.covers .readers) && (!q.covers .writers || p.covers .writers) &&
    (p.sleeper == none || p.sleeper == q.sleeper)

end RwPc

/-- Where FUTEX_WAIT returns to. -/
def RwPc.afterWait : Pending → RwPc
  | .writers => .xDec
  | .readers => .sDec

theorem RwPc.waits_of_sleeper {p : RwPc} {k : Pending} (h : p.sleeper = some k) :
    p.waits k = true := by
  cases p <;> cases k <;> first | rfl | cases h

theorem RwPc.quietMove_afterWait {q : RwPc} {k : Pending} (h : q.sleeper = some k) :
    q.quietMove (RwPc.afterWait k) = true := by
  cases q <;> cases k <;> first | rfl | cases h

theorem RwPc.valueOk_afterWait (k : Pending) : (RwPc.afterWait k).valueOk := by
  cases k <;> trivial

theorem Pending.eq_other_of_ne {k k' : Pending} (h : k' ≠ k) : k' = k.other := by
  cases k <;> cases k' <;> first | rfl | exact absurd rfl h

theorem Pending.other_ne (k : Pending) : k.other ≠ k := by
  cases k <;> nofun

/-- A reader-writer mutex's words, and where each thread is. -/
structure RwState (τ : Type) where
  state_ : Int
  num_pending_readers_ : Nat
  num_pending_writers_ : Nat
  pc : τ → RwPc

/-- One of the two counters. -/
def RwState.pending {τ : Type} (s : RwState τ) : Pending → Nat
  | .readers => s.num_pending_readers_
  | .writers => s.num_pending_writers_

variable {τ : Type}

/-- Set one of the two counters. -/
def RwState.setPending (s : RwState τ) : Pending → Nat → RwState τ
  | .readers, n => { s with num_pending_readers_ := n }
  | .writers, n => { s with num_pending_writers_ := n }

namespace RwState

theorem setPending_state (s : RwState τ) (k : Pending) (n : Nat) :
    (s.setPending k n).state_ = s.state_ := by
  cases k <;> rfl

theorem setPending_pc (s : RwState τ) (k : Pending) (n : Nat) :
    (s.setPending k n).pc = s.pc := by
  cases k <;> rfl

theorem pending_setPending (s : RwState τ) (k k' : Pending) (n : Nat) :
    (s.setPending k n).pending k' = if k' = k then n else s.pending k' := by
  cases k <;> cases k' <;> rfl

end RwState

/-- A sleeper while the lock is free has a thread that will wake it or take
    the lock. -/
def RwWitnessed (state_ : Int) (pc : τ → RwPc) : Prop :=
  ∀ z k, (pc z).sleeper = some k → state_ = 0 → ∃ u, (pc u).covers k = true

section Owned

variable [Fintype τ] {s : RwState τ}

/-- state_ is -1 with one writer and no reader, or the number of readers
    with no writer. -/
def RwOwned (state_ : Int) (pc : τ → RwPc) : Prop :=
  (state_ = -1 ∧ (∃ h, (pc h).holdsEx = true ∧ ∀ t, (pc t).holdsEx = true → t = h) ∧
      countWhere (fun p : RwPc => p.holdsSh = true) pc = 0) ∨
    (state_ = countWhere (fun p : RwPc => p.holdsSh = true) pc ∧ ∀ t, (pc t).holdsEx = false)

/-- state_ is -1 exactly when one writer and no reader hold the lock. -/
theorem RwOwned.eq_neg_one_iff {st : Int} {pc : τ → RwPc} (h : RwOwned st pc) :
    st = -1 ↔ (∃ o, (pc o).holdsEx = true ∧ ∀ t, (pc t).holdsEx = true → t = o) ∧
      countWhere (fun p : RwPc => p.holdsSh = true) pc = 0 := by
  constructor
  · intro hst
    rcases h with ⟨-, hx, h0⟩ | ⟨hc, -⟩
    · exact ⟨hx, h0⟩
    · exact absurd (hst.symm.trans hc) (by omega)
  · intro hx
    rcases h with ⟨h1, -, -⟩ | ⟨-, hnone⟩
    · exact h1
    · rcases hx with ⟨⟨o, ho, -⟩, -⟩
      rw [hnone o] at ho
      cases ho

/-- state_ is `k ≥ 0` exactly when `k` readers and no writer hold the lock. -/
theorem RwOwned.eq_natCast_iff {st : Int} {pc : τ → RwPc} (h : RwOwned st pc) (k : Nat) :
    st = k ↔ countWhere (fun p : RwPc => p.holdsSh = true) pc = k ∧
      ∀ t, (pc t).holdsEx = false := by
  constructor
  · intro hst
    rcases h with ⟨h1, -, -⟩ | ⟨hc, hnone⟩
    · exact absurd (hst.symm.trans h1) (by omega)
    · exact ⟨by omega, hnone⟩
  · intro hk
    rcases h with ⟨-, ⟨o, ho, -⟩, -⟩ | ⟨hst, -⟩
    · rw [hk.2 o] at ho
      cases ho
    · rw [hst, hk.1]

/-- The invariant of the runs. -/
structure RwInv (s : RwState τ) : Prop where
  owned : RwOwned s.state_ s.pc
  pending : ∀ k, s.pending k = countWhere (fun p : RwPc => p.waits k = true) s.pc
  values : ∀ t, (s.pc t).valueOk
  witness : RwWitnessed s.state_ s.pc

/-- With no thread counted in `k`, no thread sleeps in it. -/
theorem sleeper_ne_of_pending_zero (hinv : RwInv s) {k : Pending} (h0 : s.pending k = 0) (z : τ) :
    (s.pc z).sleeper ≠ some k := by
  intro hz
  have hpos : 0 < countWhere (fun p : RwPc => p.waits k = true) s.pc :=
    countWhere_pos_iff.mpr ⟨z, RwPc.waits_of_sleeper hz⟩
  rw [← hinv.pending k, h0] at hpos
  exact Nat.lt_irrefl 0 hpos

theorem RwInv.value (hinv : RwInv s) {t : τ} {q : RwPc} (hq : s.pc t = q) : q.valueOk := by
  rw [← hq]
  exact hinv.values t

end Owned

variable [DecidableEq τ]

/-- Move one thread. -/
def RwState.setPc (s : RwState τ) (t : τ) (p : RwPc) : RwState τ :=
  { s with pc := Function.update s.pc t p }

namespace RwState

theorem setPc_pc_self (s : RwState τ) (t : τ) (p : RwPc) : (s.setPc t p).pc t = p :=
  Function.update_self _ _ _

theorem setPc_pc_of_ne (s : RwState τ) {t u : τ} (p : RwPc) (h : u ≠ t) :
    (s.setPc t p).pc u = s.pc u :=
  Function.update_of_ne h _ _

theorem pending_setPc (s : RwState τ) (t : τ) (p : RwPc) (k : Pending) :
    (s.setPc t p).pending k = s.pending k := by
  cases k <;> rfl

end RwState

/-- Moving one thread keeps the witnesses as long as it covers what it
    covered, and falls asleep only if it was asleep. -/
theorem RwWitnessed.update {st : Int} {pc : τ → RwPc} (hw : RwWitnessed st pc) {t : τ} {p : RwPc}
    (hc : ∀ k, (pc t).covers k = true → p.covers k = true)
    (ha : p.sleeper = none ∨ p.sleeper = (pc t).sleeper) :
    RwWitnessed st (Function.update pc t p) := by
  intro z k hz h0
  have hz' : (pc z).sleeper = some k := by
    by_cases hzt : z = t
    · subst hzt
      rw [Function.update_self] at hz
      rcases ha with ha | ha
      · rw [ha] at hz
        cases hz
      · rw [← ha]
        exact hz
    · rwa [Function.update_of_ne hzt] at hz
  rcases hw z k hz' h0 with ⟨u, hu⟩
  refine ⟨u, ?_⟩
  by_cases hut : u = t
  · subst hut
    rw [Function.update_self]
    exact hc k hu
  · rw [Function.update_of_ne hut]
    exact hu

variable [Fintype τ]

/-- The next atomic access of thread `t`. -/
def rwNext (s : RwState τ) (t : τ) : Option (RwState τ) :=
  match s.pc t with
  | .xRead => some (s.setPc t (if s.state_ = 0 then .xCas else .xInc s.state_))
  | .xCas =>
    if s.state_ = 0 then some { s.setPc t .xHeld with state_ := -1 } else some (s.setPc t .xRead)
  | .xInc v =>
    some { s.setPc t (.xWait v) with num_pending_writers_ := s.num_pending_writers_ + 1 }
  | .xWait v => some (s.setPc t (if s.state_ = v then .xAsleep else .xDec))
  | .xDec => some { s.setPc t .xRead with num_pending_writers_ := s.num_pending_writers_ - 1 }
  -- any other state_ is LOG(FATAL)
  | .xuRead => if s.state_ = -1 then some (s.setPc t .xuCas) else none
  | .xuCas =>
    if s.state_ = -1 then some { s.setPc t (.check .readers true) with state_ := 0 }
    else some (s.setPc t .xuRead)
  | .sRead => some (s.setPc t (if 0 ≤ s.state_ then .sCas s.state_ else .sInc s.state_))
  | .sCas v =>
    if s.state_ = v then some { s.setPc t .sHeld with state_ := v + 1 } else some (s.setPc t .sRead)
  | .sInc v =>
    some { s.setPc t (.sWait v) with num_pending_readers_ := s.num_pending_readers_ + 1 }
  | .sWait v => some (s.setPc t (if s.state_ = v then .sAsleep else .sDec))
  | .sDec => some { s.setPc t .sRead with num_pending_readers_ := s.num_pending_readers_ - 1 }
  | .stRead => some (s.setPc t (if 0 ≤ s.state_ then .stCas s.state_ else .idle))
  | .stCas v =>
    if s.state_ = v then some { s.setPc t .sHeld with state_ := v + 1 } else some (s.setPc t .stRead)
  | .suRead => if 0 < s.state_ then some (s.setPc t (.suCas s.state_)) else none
  | .suCas v =>
    if s.state_ = v then
      some { s.setPc t (if v - 1 = 0 then .check .writers true else .idle) with state_ := v - 1 }
    else some (s.setPc t .suRead)
  | .check k other =>
    some (s.setPc t (if 0 < s.pending k then .wake else if other then .check k.other false else .idle))
  -- FUTEX_WAKE with nobody asleep
  | .wake => if ∀ u, (s.pc u).sleeper = none then some (s.setPc t .idle) else none
  | _ => none

/-- The steps of the threads on one reader-writer mutex. -/
inductive RwCall (τ : Type)
  | exclusiveLock (t : τ)
  | exclusiveUnlock (t : τ)
  | sharedLock (t : τ)
  | sharedTryLock (t : τ)
  | sharedUnlock (t : τ)
  /-- The next atomic access of `t`. -/
  | next (t : τ)
  /-- `t`'s FUTEX_WAKE wakes the sleeper `u`. -/
  | wake (t u : τ)
  /-- A writer's FUTEX_WAIT returns EINTR; SharedLock aborts on it instead. -/
  | eintr (t : τ)

/-- One step. -/
def rwStep : RwCall τ → RwState τ → Option (RwState τ)
  | .exclusiveLock t, s => if s.pc t = .idle then some (s.setPc t .xRead) else none
  | .exclusiveUnlock t, s => if s.pc t = .xHeld then some (s.setPc t .xuRead) else none
  | .sharedLock t, s => if s.pc t = .idle then some (s.setPc t .sRead) else none
  | .sharedTryLock t, s => if s.pc t = .idle then some (s.setPc t .stRead) else none
  | .sharedUnlock t, s => if s.pc t = .sHeld then some (s.setPc t .suRead) else none
  | .next t, s => rwNext s t
  | .wake t u, s =>
    match (s.pc u).sleeper with
    | some k => if s.pc t = .wake then some ((s.setPc u (RwPc.afterWait k)).setPc t .idle) else none
    | none => none
  | .eintr t, s => if s.pc t = .xAsleep then some (s.setPc t .xDec) else none

/-- A new reader-writer mutex. -/
def RwState.IsInitial (s : RwState τ) : Prop :=
  s.state_ = 0 ∧ s.num_pending_readers_ = 0 ∧ s.num_pending_writers_ = 0 ∧ ∀ t, s.pc t = .idle

/-- The threads on one reader-writer mutex. -/
def rwSystem (τ : Type) [Fintype τ] [DecidableEq τ] : System (RwState τ) (RwCall τ) :=
  System.ofFun RwState.IsInitial rwStep

section Invariant

variable {s s' : RwState τ}

theorem RwOwned.update {st : Int} {pc : τ → RwPc} (h : RwOwned st pc) {t : τ} {p : RwPc}
    (hx : p.holdsEx = (pc t).holdsEx) (hs : p.holdsSh = (pc t).holdsSh) :
    RwOwned st (Function.update pc t p) := by
  have hex : ∀ u, (Function.update pc t p u).holdsEx = (pc u).holdsEx := by
    intro u
    by_cases hu : u = t
    · subst hu
      rw [Function.update_self]
      exact hx
    · rw [Function.update_of_ne hu]
  have hcount : countWhere (fun p : RwPc => p.holdsSh = true) (Function.update pc t p) =
      countWhere (fun p : RwPc => p.holdsSh = true) pc :=
    countWhere_update_of_iff (by rw [hs])
  unfold RwOwned
  rw [hcount]
  rcases h with ⟨h1, ⟨o, ho, huniq⟩, h0⟩ | ⟨hst, hnone⟩
  · exact .inl ⟨h1, ⟨o, (hex o).trans ho, fun u hu => huniq u ((hex u).symm.trans hu)⟩, h0⟩
  · exact .inr ⟨hst, fun u => (hex u).trans (hnone u)⟩

theorem values_update (hinv : RwInv s) {t : τ} {p : RwPc} (hv : p.valueOk) (u : τ) :
    (Function.update s.pc t p u).valueOk := by
  by_cases hut : u = t
  · subst hut
    rw [Function.update_self]
    exact hv
  · rw [Function.update_of_ne hut]
    exact hinv.values u

theorem pending_update (hinv : RwInv s) {t : τ} {p : RwPc}
    (hw : ∀ k, p.waits k = (s.pc t).waits k) (k : Pending) :
    s.pending k = countWhere (fun p : RwPc => p.waits k = true) (Function.update s.pc t p) := by
  rw [hinv.pending k]
  exact (countWhere_update_of_iff (by rw [hw k])).symm

/-- Moving one thread without touching the counters or state_, given the
    witnesses afterwards. -/
theorem RwInv.moveWith (hinv : RwInv s) {t : τ} {p : RwPc}
    (hx : p.holdsEx = (s.pc t).holdsEx) (hs : p.holdsSh = (s.pc t).holdsSh)
    (hw : ∀ k, p.waits k = (s.pc t).waits k) (hv : p.valueOk)
    (hwit : RwWitnessed s.state_ (Function.update s.pc t p)) : RwInv (s.setPc t p) where
  owned := hinv.owned.update hx hs
  pending k := by
    rw [RwState.pending_setPc]
    exact pending_update hinv hw k
  values := values_update hinv hv
  witness := hwit

/-- A quiet move of one thread. -/
theorem RwInv.move (hinv : RwInv s) {t : τ} {q p : RwPc} (hq : s.pc t = q)
    (hm : q.quietMove p = true) (hv : p.valueOk) : RwInv (s.setPc t p) := by
  simp only [RwPc.quietMove, Bool.and_eq_true, beq_iff_eq, Bool.or_eq_true, Bool.not_eq_true']
    at hm
  rcases hm with ⟨⟨⟨⟨⟨⟨hx, hs⟩, hr⟩, hw⟩, hcr⟩, hcw⟩, ha⟩
  subst hq
  have hwaits : ∀ k, p.waits k = (s.pc t).waits k := by
    intro k
    cases k with
    | readers => exact hr
    | writers => exact hw
  -- what the thread covered it still covers
  have hcov : ∀ k, (s.pc t).covers k = true → p.covers k = true := by
    intro k hk
    cases k with
    | readers =>
      rcases hcr with h | h
      · rw [hk] at h
        cases h
      · exact h
    | writers =>
      rcases hcw with h | h
      · rw [hk] at h
        cases h
      · exact h
  exact hinv.moveWith hx hs hwaits hv (hinv.witness.update hcov ha)

/-- A move while the lock is taken: the witnesses have nothing to keep. -/
theorem RwInv.moveHeld (hinv : RwInv s) {t : τ} {p : RwPc} (hne : s.state_ ≠ 0)
    (hx : p.holdsEx = (s.pc t).holdsEx) (hs : p.holdsSh = (s.pc t).holdsSh)
    (hw : ∀ k, p.waits k = (s.pc t).waits k) (hv : p.valueOk) : RwInv (s.setPc t p) :=
  hinv.moveWith hx hs hw hv fun _ _ _ h0 => absurd h0 hne

/-- A thread that enters counter `k`, with the increment. -/
theorem RwInv.inc (hinv : RwInv s) {t : τ} {k : Pending} {p : RwPc}
    (hq : (s.pc t).waits k = false) (hp : p.waits k = true)
    (ho : p.waits k.other = (s.pc t).waits k.other)
    (hx : p.holdsEx = (s.pc t).holdsEx) (hs : p.holdsSh = (s.pc t).holdsSh)
    (hc : ∀ k, p.covers k = true) (ha : p.sleeper = none) (hv : p.valueOk) :
    RwInv ((s.setPc t p).setPending k (s.pending k + 1)) where
  owned := by
    rw [RwState.setPending_state, RwState.setPending_pc]
    exact hinv.owned.update hx hs
  pending k' := by
    rw [RwState.pending_setPending, RwState.setPending_pc, RwState.pending_setPc]
    show _ = countWhere _ (Function.update s.pc t p)
    by_cases hk : k' = k
    · subst hk
      rw [if_pos rfl, hinv.pending k', countWhere_update_of_enter
        (p := fun p : RwPc => p.waits k' = true) (by rw [hq]; exact Bool.false_ne_true) hp]
    · rw [if_neg hk, Pending.eq_other_of_ne hk, hinv.pending, countWhere_update_of_iff (by rw [ho])]
  values := by
    rw [RwState.setPending_pc]
    exact values_update hinv hv
  witness := by
    rw [RwState.setPending_state, RwState.setPending_pc]
    exact hinv.witness.update (fun k _ => hc k) (.inl ha)

/-- A thread that leaves counter `k`, with the decrement. -/
theorem RwInv.dec (hinv : RwInv s) {t : τ} {k : Pending} {p : RwPc}
    (hq : (s.pc t).waits k = true) (hp : p.waits k = false)
    (ho : p.waits k.other = (s.pc t).waits k.other)
    (hx : p.holdsEx = (s.pc t).holdsEx) (hs : p.holdsSh = (s.pc t).holdsSh)
    (hc : ∀ k, p.covers k = true) (ha : p.sleeper = none) (hv : p.valueOk) :
    RwInv ((s.setPc t p).setPending k (s.pending k - 1)) where
  owned := by
    rw [RwState.setPending_state, RwState.setPending_pc]
    exact hinv.owned.update hx hs
  pending k' := by
    rw [RwState.pending_setPending, RwState.setPending_pc, RwState.pending_setPc]
    show _ = countWhere _ (Function.update s.pc t p)
    by_cases hk : k' = k
    · subst hk
      have h := countWhere_update_of_leave (p := fun p : RwPc => p.waits k' = true)
        (f := s.pc) (t := t) (a := p) hq (by rw [hp]; exact Bool.false_ne_true)
      rw [if_pos rfl, hinv.pending k']
      omega
    · rw [if_neg hk, Pending.eq_other_of_ne hk, hinv.pending, countWhere_update_of_iff (by rw [ho])]
  values := by
    rw [RwState.setPending_pc]
    exact values_update hinv hv
  witness := by
    rw [RwState.setPending_state, RwState.setPending_pc]
    exact hinv.witness.update (fun k _ => hc k) (.inl ha)

/-- A CAS on state_ that moves one thread and no counter. -/
theorem RwInv.cas (hinv : RwInv s) {t : τ} {p : RwPc} {v : Int}
    (hw : ∀ k, p.waits k = (s.pc t).waits k) (hv : p.valueOk)
    (ho : RwOwned v (Function.update s.pc t p))
    (hwit : RwWitnessed v (Function.update s.pc t p)) :
    RwInv { s.setPc t p with state_ := v } where
  owned := ho
  pending k := by
    show (s.setPc t p).pending k = _
    rw [RwState.pending_setPc]
    exact pending_update hinv hw k
  values := values_update hinv hv
  witness := hwit

/-- ExclusiveLock's CAS from 0 to -1. -/
theorem RwInv.acquireEx (hinv : RwInv s) {t : τ} (ht : s.pc t = .xCas) (h0 : s.state_ = 0) :
    RwInv { s.setPc t .xHeld with state_ := -1 } := by
  rcases hinv.owned with ⟨h1, -, -⟩ | ⟨hst, hnone⟩
  · rw [h0] at h1
    exact absurd h1 (by decide)
  · -- the lock was free: t becomes its one writer, with no reader
    have hcount := countWhere_update_of_iff (p := fun p : RwPc => p.holdsSh = true)
      (f := s.pc) (t := t) (a := .xHeld) (by rw [ht]; rfl)
    refine hinv.cas (fun k => by rw [ht]; cases k <;> rfl) trivial
      (.inl ⟨rfl, ⟨t, by rw [Function.update_self]; rfl, fun u hu => ?_⟩, by omega⟩)
      fun _ _ _ h => absurd h (by decide)
    by_contra hut
    rw [Function.update_of_ne hut, hnone u] at hu
    cases hu

/-- SharedLock's or SharedTryLock's CAS from `state_ ≥ 0` to `state_ + 1`. -/
theorem RwInv.acquireSh (hinv : RwInv s) {t : τ} (hsh : (s.pc t).holdsSh = false)
    (hw : ∀ k, (s.pc t).waits k = false) (h0 : 0 ≤ s.state_) :
    RwInv { s.setPc t .sHeld with state_ := s.state_ + 1 } := by
  rcases hinv.owned with ⟨h1, -, -⟩ | ⟨hst, hnone⟩
  · exact absurd h1 (by omega)
  · -- one more reader
    have hcount := countWhere_update_of_enter (p := fun p : RwPc => p.holdsSh = true)
      (f := s.pc) (t := t) (a := .sHeld) (by rw [hsh]; exact Bool.false_ne_true) rfl
    refine hinv.cas (fun k => by rw [hw k]; cases k <;> rfl) trivial
      (.inr ⟨by omega, fun u => ?_⟩) fun _ _ _ h => absurd h (by omega)
    by_cases hut : u = t
    · subst hut
      rw [Function.update_self]
      rfl
    · rw [Function.update_of_ne hut]
      exact hnone u

/-- ExclusiveUnlock's CAS from -1 to 0. -/
theorem RwInv.releaseEx (hinv : RwInv s) {t : τ} (ht : s.pc t = .xuCas) (h1 : s.state_ = -1) :
    RwInv { s.setPc t (.check .readers true) with state_ := 0 } := by
  rcases hinv.owned with ⟨-, ⟨o, -, huniq⟩, h0⟩ | ⟨hst, -⟩
  · have hot : t = o := huniq t (by rw [ht]; rfl)
    have hcount := countWhere_update_of_iff (p := fun p : RwPc => p.holdsSh = true)
      (f := s.pc) (t := t) (a := .check .readers true) (by rw [ht]; rfl)
    refine hinv.cas (fun k => by rw [ht]; cases k <;> rfl) trivial
      (.inr ⟨by omega, fun u => ?_⟩) ?_
    · by_cases hut : u = t
      · subst hut
        rw [Function.update_self]
        rfl
      · -- t was the only writer
        rw [Function.update_of_ne hut]
        cases hu : (s.pc u).holdsEx with
        | false => rfl
        | true => exact absurd ((huniq u hu).trans hot.symm) hut
    · -- t, about to read the counters, covers every sleeper
      intro _ _ _ _
      exact ⟨t, by rw [Function.update_self]; rfl⟩
  · exact absurd hst (by omega)

/-- SharedUnlock's CAS from `v > 0` to `v - 1`. -/
theorem RwInv.releaseSh (hinv : RwInv s) {t : τ} {v : Int} (ht : s.pc t = .suCas v)
    (hv : s.state_ = v) :
    RwInv { s.setPc t (if v - 1 = 0 then .check .writers true else .idle) with state_ := v - 1 } := by
  have hpos : 0 < v := by
    have h := hinv.values t
    rw [ht] at h
    exact h
  rcases hinv.owned with ⟨h1, -, -⟩ | ⟨hst, hnone⟩
  · exact absurd h1 (by omega)
  · -- one reader fewer
    have hcount := countWhere_update_of_leave (p := fun p : RwPc => p.holdsSh = true)
      (f := s.pc) (t := t) (a := if v - 1 = 0 then .check .writers true else .idle)
      (by rw [ht]; rfl) (by split <;> exact Bool.false_ne_true)
    refine hinv.cas (fun k => by rw [ht]; split <;> cases k <;> rfl) (by split <;> trivial)
      (.inr ⟨by omega, fun u => ?_⟩) ?_
    · by_cases hut : u = t
      · subst hut
        rw [Function.update_self]
        split <;> rfl
      · rw [Function.update_of_ne hut]
        exact hnone u
    · -- the last reader left: t, about to read the counters, covers every sleeper
      intro _ _ _ h0
      refine ⟨t, ?_⟩
      rw [Function.update_self, if_pos h0]
      rfl

/-- An unlock that finds counter `k` at 0 reads the other one, or returns. -/
theorem RwInv.checkPass (hinv : RwInv s) {t : τ} {k : Pending} {other : Bool}
    (ht : s.pc t = .check k other) (h0 : s.pending k = 0) :
    RwInv (s.setPc t (if other then .check k.other false else .idle)) := by
  refine hinv.moveWith (by rw [ht]; split <;> rfl) (by rw [ht]; split <;> rfl)
    (fun k' => by rw [ht]; split <;> cases k' <;> rfl) (by split <;> trivial) ?_
  intro z k' hz hst
  have hz' : (s.pc z).sleeper = some k' := by
    by_cases hzt : z = t
    · subst hzt
      rw [Function.update_self] at hz
      split at hz <;> cases hz
    · rwa [Function.update_of_ne hzt] at hz
  -- nobody sleeps in k, so z sleeps in the other counter
  have hk : k' = k.other := by
    apply Pending.eq_other_of_ne
    intro h
    rw [h] at hz'
    exact sleeper_ne_of_pending_zero hinv h0 z hz'
  rcases hinv.witness z k' hz' hst with ⟨u, hu⟩
  refine ⟨u, ?_⟩
  by_cases hut : u = t
  · subst hut
    rw [Function.update_self]
    rw [ht] at hu
    cases other with
    | true =>
      rw [if_pos rfl, hk]
      exact beq_self_eq_true k.other
    | false =>
      -- t covered k alone, and z does not sleep in k
      have hkk : (k == k') = true := hu
      rw [beq_iff_eq, hk] at hkk
      exact absurd hkk.symm (Pending.other_ne k)
  · rw [Function.update_of_ne hut]
    exact hu

/-- An unlock's FUTEX_WAKE with nobody asleep. -/
theorem RwInv.wakeNone (hinv : RwInv s) {t : τ} (ht : s.pc t = .wake)
    (hnone : ∀ u, (s.pc u).sleeper = none) : RwInv (s.setPc t .idle) := by
  refine hinv.moveWith (by rw [ht]; rfl) (by rw [ht]; rfl) (fun k => by rw [ht]; cases k <;> rfl)
    trivial ?_
  -- nobody is asleep afterwards either
  intro z k hz _
  by_cases hzt : z = t
  · subst hzt
    rw [Function.update_self] at hz
    cases hz
  · rw [Function.update_of_ne hzt, hnone z] at hz
    cases hz

/-- FUTEX_WAKE wakes `u`, which covers every sleeper once it is awake. -/
theorem RwInv.wake (hinv : RwInv s) {t u : τ} {k : Pending} (ht : s.pc t = .wake)
    (hu : (s.pc u).sleeper = some k) : RwInv ((s.setPc u (RwPc.afterWait k)).setPc t .idle) := by
  have hut : u ≠ t := by
    intro h
    rw [h, ht] at hu
    cases hu
  have h1 := hinv.move rfl (RwPc.quietMove_afterWait hu) (RwPc.valueOk_afterWait k)
  have ht1 : (s.setPc u (RwPc.afterWait k)).pc t = .wake := by
    rw [RwState.setPc_pc_of_ne _ _ (Ne.symm hut), ht]
  refine h1.moveWith (by rw [ht1]; rfl) (by rw [ht1]; rfl) (fun k => by rw [ht1]; cases k <;> rfl)
    trivial ?_
  intro _ k' _ _
  refine ⟨u, ?_⟩
  rw [Function.update_of_ne hut, RwState.setPc_pc_self]
  cases k <;> rfl

theorem RwInv.next (hinv : RwInv s) {t : τ} (h : rwNext s t = some s') : RwInv s' := by
  cases hp : s.pc t with
  | xRead =>
    simp only [rwNext, hp, Option.some.injEq] at h
    subst h
    by_cases h0 : s.state_ = 0
    · rw [if_pos h0]
      exact hinv.move hp rfl trivial
    · rw [if_neg h0]
      exact hinv.move hp rfl h0
  | xCas =>
    simp only [rwNext, hp] at h
    by_cases h0 : s.state_ = 0
    · rw [if_pos h0, Option.some_inj] at h
      subst h
      exact hinv.acquireEx hp h0
    · rw [if_neg h0, Option.some_inj] at h
      subst h
      exact hinv.move hp rfl trivial
  | xInc v =>
    simp only [rwNext, hp, Option.some.injEq] at h
    subst h
    exact hinv.inc (k := .writers) (by rw [hp]; rfl) rfl
      (by rw [hp]; rfl) (by rw [hp]; rfl) (by rw [hp]; rfl)
      (fun k => by cases k <;> rfl) rfl (show v ≠ 0 from hinv.value hp)
  | xWait v =>
    simp only [rwNext, hp, Option.some.injEq] at h
    subst h
    by_cases hv : s.state_ = v
    · -- FUTEX_WAIT sleeps only on a value other than 0
      rw [if_pos hv]
      have h0 : v ≠ 0 := hinv.value hp
      exact hinv.moveHeld (by rw [hv]; exact h0) (by rw [hp]; rfl) (by rw [hp]; rfl)
        (fun k => by rw [hp]; cases k <;> rfl) trivial
    · rw [if_neg hv]
      exact hinv.move hp rfl trivial
  | xDec =>
    simp only [rwNext, hp, Option.some.injEq] at h
    subst h
    exact hinv.dec (k := .writers) (by rw [hp]; rfl) rfl
      (by rw [hp]; rfl) (by rw [hp]; rfl) (by rw [hp]; rfl)
      (fun k => by cases k <;> rfl) rfl trivial
  | xuRead =>
    simp only [rwNext, hp] at h
    by_cases h1 : s.state_ = -1
    · rw [if_pos h1, Option.some_inj] at h
      subst h
      exact hinv.move hp rfl trivial
    · rw [if_neg h1] at h
      cases h
  | xuCas =>
    simp only [rwNext, hp] at h
    by_cases h1 : s.state_ = -1
    · rw [if_pos h1, Option.some_inj] at h
      subst h
      exact hinv.releaseEx hp h1
    · rw [if_neg h1, Option.some_inj] at h
      subst h
      exact hinv.move hp rfl trivial
  | sRead =>
    simp only [rwNext, hp, Option.some.injEq] at h
    subst h
    by_cases h0 : 0 ≤ s.state_
    · rw [if_pos h0]
      exact hinv.move hp rfl h0
    · rw [if_neg h0]
      exact hinv.move hp rfl (Int.lt_of_not_ge h0)
  | sCas v =>
    simp only [rwNext, hp] at h
    by_cases hv : s.state_ = v
    · rw [if_pos hv, Option.some_inj] at h
      subst h
      have h0 : 0 ≤ v := hinv.value hp
      rw [← hv] at h0 ⊢
      exact hinv.acquireSh (by rw [hp]; rfl) (fun k => by rw [hp]; cases k <;> rfl) h0
    · rw [if_neg hv, Option.some_inj] at h
      subst h
      exact hinv.move hp rfl trivial
  | sInc v =>
    simp only [rwNext, hp, Option.some.injEq] at h
    subst h
    exact hinv.inc (k := .readers) (by rw [hp]; rfl) rfl
      (by rw [hp]; rfl) (by rw [hp]; rfl) (by rw [hp]; rfl)
      (fun k => by cases k <;> rfl) rfl (show v < 0 from hinv.value hp)
  | sWait v =>
    simp only [rwNext, hp, Option.some.injEq] at h
    subst h
    by_cases hv : s.state_ = v
    · -- a reader sleeps only while a writer holds the lock
      rw [if_pos hv]
      have h0 : v < 0 := hinv.value hp
      exact hinv.moveHeld (by omega) (by rw [hp]; rfl) (by rw [hp]; rfl)
        (fun k => by rw [hp]; cases k <;> rfl) trivial
    · rw [if_neg hv]
      exact hinv.move hp rfl trivial
  | sDec =>
    simp only [rwNext, hp, Option.some.injEq] at h
    subst h
    exact hinv.dec (k := .readers) (by rw [hp]; rfl) rfl
      (by rw [hp]; rfl) (by rw [hp]; rfl) (by rw [hp]; rfl)
      (fun k => by cases k <;> rfl) rfl trivial
  | stRead =>
    simp only [rwNext, hp, Option.some.injEq] at h
    subst h
    by_cases h0 : 0 ≤ s.state_
    · rw [if_pos h0]
      exact hinv.move hp rfl h0
    · rw [if_neg h0]
      exact hinv.moveHeld (by omega) (by rw [hp]; rfl) (by rw [hp]; rfl)
        (fun k => by rw [hp]; cases k <;> rfl) trivial
  | stCas v =>
    simp only [rwNext, hp] at h
    by_cases hv : s.state_ = v
    · rw [if_pos hv, Option.some_inj] at h
      subst h
      have h0 : 0 ≤ v := hinv.value hp
      rw [← hv] at h0 ⊢
      exact hinv.acquireSh (by rw [hp]; rfl) (fun k => by rw [hp]; cases k <;> rfl) h0
    · rw [if_neg hv, Option.some_inj] at h
      subst h
      exact hinv.move hp rfl trivial
  | suRead =>
    simp only [rwNext, hp] at h
    by_cases h0 : 0 < s.state_
    · rw [if_pos h0, Option.some_inj] at h
      subst h
      exact hinv.move hp rfl h0
    · rw [if_neg h0] at h
      cases h
  | suCas v =>
    simp only [rwNext, hp] at h
    by_cases hv : s.state_ = v
    · rw [if_pos hv, Option.some_inj] at h
      subst h
      exact hinv.releaseSh hp hv
    · rw [if_neg hv, Option.some_inj] at h
      subst h
      exact hinv.move hp rfl trivial
  | check k other =>
    simp only [rwNext, hp, Option.some.injEq] at h
    subst h
    by_cases hc : 0 < s.pending k
    · rw [if_pos hc]
      exact hinv.move hp (by cases k <;> cases other <;> rfl) trivial
    · rw [if_neg hc]
      exact hinv.checkPass hp (by omega)
  | wake =>
    simp only [rwNext, hp] at h
    by_cases hnone : ∀ u, (s.pc u).sleeper = none
    · rw [if_pos hnone, Option.some_inj] at h
      subst h
      exact hinv.wakeNone hp hnone
    · rw [if_neg hnone] at h
      cases h
  | idle | xAsleep | xHeld | sAsleep | sHeld =>
    simp only [rwNext, hp] at h
    cases h

theorem RwInv.step (hinv : RwInv s) {c : RwCall τ} (h : rwStep c s = some s') : RwInv s' := by
  cases c with
  | exclusiveLock t | sharedLock t | sharedTryLock t =>
    by_cases ht : s.pc t = .idle
    · rw [rwStep, if_pos ht, Option.some_inj] at h
      subst h
      exact hinv.move ht rfl trivial
    · rw [rwStep, if_neg ht] at h
      cases h
  | exclusiveUnlock t =>
    by_cases ht : s.pc t = .xHeld
    · rw [rwStep, if_pos ht, Option.some_inj] at h
      subst h
      exact hinv.move ht rfl trivial
    · rw [rwStep, if_neg ht] at h
      cases h
  | sharedUnlock t =>
    by_cases ht : s.pc t = .sHeld
    · rw [rwStep, if_pos ht, Option.some_inj] at h
      subst h
      exact hinv.move ht rfl trivial
    · rw [rwStep, if_neg ht] at h
      cases h
  | next t => exact hinv.next h
  | wake t u =>
    cases hu : (s.pc u).sleeper with
    | none =>
      simp only [rwStep, hu] at h
      cases h
    | some k =>
      by_cases ht : s.pc t = .wake
      · simp only [rwStep, hu, if_pos ht, Option.some_inj] at h
        subst h
        exact hinv.wake ht hu
      · simp only [rwStep, hu, if_neg ht] at h
        cases h
  | eintr t =>
    by_cases ht : s.pc t = .xAsleep
    · rw [rwStep, if_pos ht, Option.some_inj] at h
      subst h
      exact hinv.move ht rfl trivial
    · rw [rwStep, if_neg ht] at h
      cases h

theorem rwInv_reach (hs : (rwSystem τ).Reach s) : RwInv s := by
  refine System.Inductive.reach ⟨?_, ?_⟩ hs
  · intro s hinit
    rcases hinit with ⟨h0, hr, hw, hidle⟩
    -- nobody is counted, holds or sleeps in a new lock
    have hnone : ∀ (q : RwPc → Prop) [DecidablePred q], ¬ q .idle →
        countWhere q s.pc = 0 := by
      intro q _ hq
      rw [← Nat.le_zero, ← Nat.not_lt, countWhere_pos_iff]
      intro hx
      rcases hx with ⟨x, hx⟩
      rw [hidle] at hx
      exact hq hx
    refine ⟨.inr ⟨?_, fun t => by rw [hidle]; rfl⟩, fun k => ?_, fun t => ?_,
      fun z _ hz _ => ?_⟩
    · rw [h0, hnone _ Bool.false_ne_true]
      rfl
    · cases k with
      | readers => rw [hnone _ Bool.false_ne_true]; exact hr
      | writers => rw [hnone _ Bool.false_ne_true]; exact hw
    · rw [hidle]
      trivial
    · rw [hidle] at hz
      cases hz
  · intro c s s' hinv h
    exact hinv.step h

end Invariant

/-- In every reachable state of either lock, whatever the threads and the
    interleaving: the mutex is held by at most one thread, with state_ 0 or 1;
    state_ of the reader-writer mutex is -1 exactly when one writer and no
    reader hold it, and `k ≥ 0` exactly when `k` readers and no writer do; and
    a thread asleep while the lock is free has, beside it, a thread awake in
    the lock's code that will take the lock or wake a sleeper. -/
theorem futexLocks_correct :
    (∀ (τ : Type) [Fintype τ] [DecidableEq τ] (s : MutexState τ), (mutexSystem τ).Reach s →
      (s.state_ = 0 ∨ s.state_ = 1) ∧
      (∀ t u, (s.pc t).holds = true → (s.pc u).holds = true → t = u) ∧
      MutexWitnessed s.state_ s.pc) ∧
    (∀ (τ : Type) [Fintype τ] [DecidableEq τ] (s : RwState τ), (rwSystem τ).Reach s →
      (s.state_ = -1 ↔ (∃ o, (s.pc o).holdsEx = true ∧ ∀ t, (s.pc t).holdsEx = true → t = o) ∧
        countWhere (fun p : RwPc => p.holdsSh = true) s.pc = 0) ∧
      (∀ k : Nat, s.state_ = k ↔
        countWhere (fun p : RwPc => p.holdsSh = true) s.pc = k ∧ ∀ t, (s.pc t).holdsEx = false) ∧
      RwWitnessed s.state_ s.pc) := by
  constructor
  · intro τ _ _ s hs
    have hinv := mutexInv_reach hs
    exact ⟨hinv.owned.state_eq_zero_or_one, fun _ _ ht hu => hinv.owned.holds_unique ht hu,
      hinv.witness⟩
  · intro τ _ _ s hs
    have hinv := rwInv_reach hs
    exact ⟨hinv.owned.eq_neg_one_iff, hinv.owned.eq_natCast_iff, hinv.witness⟩

/-- Both locks contended: the mutex held by one thread with another asleep
    on it, and the reader-writer mutex held shared by two readers with a
    writer asleep on it. -/
theorem futexLocks_correct_contended :
    (∃ s, (mutexSystem (Fin 2)).Reach s ∧ s.state_ = 1 ∧ s.pc 0 = .held ∧ s.pc 1 = .asleep ∧
      (s.state_ = 0 ∨ s.state_ = 1) ∧
      (∀ t u, (s.pc t).holds = true → (s.pc u).holds = true → t = u) ∧
      MutexWitnessed s.state_ s.pc) ∧
    (∃ s, (rwSystem (Fin 3)).Reach s ∧ s.state_ = 2 ∧ s.pc 1 = .xAsleep ∧
      (s.state_ = -1 ↔ (∃ o, (s.pc o).holdsEx = true ∧ ∀ t, (s.pc t).holdsEx = true → t = o) ∧
        countWhere (fun p : RwPc => p.holdsSh = true) s.pc = 0) ∧
      (∀ k : Nat, s.state_ = k ↔
        countWhere (fun p : RwPc => p.holdsSh = true) s.pc = k ∧ ∀ t, (s.pc t).holdsEx = false) ∧
      RwWitnessed s.state_ s.pc) := by
  constructor
  · -- thread 0 takes the mutex, and thread 1 finds it held and goes to sleep
    have hrun : (System.runFun mutexStep ⟨0, 0, fun _ => .idle⟩
        ([.lock 0, .next 0, .next 0, .lock 1, .next 1, .next 1, .next 1] : List (MutexCall (Fin 2)))).map
        (fun s => decide (s.state_ = 1) && decide (s.pc 0 = .held) && decide (s.pc 1 = .asleep)) =
          some true := by
      decide
    obtain ⟨s, hs, hp⟩ := System.exists_reach_of_runFun (show MutexState.IsInitial
      (⟨0, 0, fun _ => .idle⟩ : MutexState (Fin 2)) from ⟨rfl, rfl, fun _ => rfl⟩) hrun
    simp only [Bool.and_eq_true, decide_eq_true_eq] at hp
    exact ⟨s, hs, hp.1.1, hp.1.2, hp.2, futexLocks_correct.1 (Fin 2) s hs⟩
  · -- threads 0 and 2 take it shared, around thread 1, a writer, which goes to sleep
    have hrun : (System.runFun rwStep ⟨0, 0, 0, fun _ => .idle⟩
        ([.sharedLock 0, .next 0, .next 0, .exclusiveLock 1, .next 1, .next 1, .next 1,
          .sharedLock 2, .next 2, .next 2] : List (RwCall (Fin 3)))).map
        (fun s => decide (s.state_ = 2) && decide (s.pc 1 = .xAsleep)) = some true := by
      decide
    obtain ⟨s, hs, hp⟩ := System.exists_reach_of_runFun (show RwState.IsInitial
      (⟨0, 0, 0, fun _ => .idle⟩ : RwState (Fin 3)) from ⟨rfl, rfl, rfl, fun _ => rfl⟩) hrun
    simp only [Bool.and_eq_true, decide_eq_true_eq] at hp
    exact ⟨s, hs, hp.1, hp.2, futexLocks_correct.2 (Fin 3) s hs⟩

end ArtRuntime
