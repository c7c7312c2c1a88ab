import ArtRuntime.Core.Count
import ArtRuntime.Core.Reach

/-!
# Futex Mutexes

The ART_USE_FUTEXES paths of Mutex::ExclusiveLock, ExclusiveTryLock and
ExclusiveUnlock (mutex.cc) for a non-recursive mutex, one atomic access at a
time: each read of state_, each CAS, each increment or decrement of
num_contenders_ and each futex call is a step of its own. FUTEX_WAIT(addr, v)
compares *addr with v and sleeps only if they are equal; FUTEX_WAKE wakes one
sleeper, if there is one: ExclusiveUnlock passes 1, and the -1 that
ReaderWriterMutex passes also wakes one, since the kernel compares the number
it has woken with the count as a signed int.

A waiter counts itself in num_contenders_ before it sleeps, and an unlocker
reads num_contenders_ after its CAS, so that a sleeper that went to sleep
before the CAS is woken after it. FUTEX_WAKE wakes only one sleeper, though:
with two asleep, one is woken and the other sleeps on while the mutex is
free and nobody is about to wake it. It is not lost: the woken thread is
awake inside ExclusiveLock, and will take the mutex and wake the next
sleeper when it lets the mutex go.

## Main definitions

* `MutexPc`: Where a thread is in the three calls.
* `MutexState`, `mutexStep`, `mutexSystem`: The threads on one mutex.
* `MutexInv`: The invariant.

## Theorems

* `mutexInv_reach`: state_ is 1 with one holder or 0 with none,
  num_contenders_ counts the threads between its increment and decrement,
  and a sleeper while the mutex is free has a thread awake in the mutex's
  code.
* `mutex_sleeper_while_free`: A run in which a thread sleeps while the mutex
  is free and no thread is between its unlock's CAS and its FUTEX_WAKE.
-/

namespace ArtRuntime

open TransitionSystem Count

/-- Where a thread is in Mutex::ExclusiveLock, ExclusiveTryLock and
    ExclusiveUnlock. -/
inductive MutexPc
  /-- Outside the three calls, not holding the mutex. -/
  | idle
  /-- ExclusiveLock: about to read state_. -/
  | lockRead
  /-- ExclusiveLock: read 0, about to CAS state_ from 0 to 1. -/
  | lockCas
  /-- ExclusiveLock: read a held state, about to increment num_contenders_. -/
  | lockInc
  /-- ExclusiveLock: about to FUTEX_WAIT(state_, 1). -/
  | lockWait
  /-- Asleep in FUTEX_WAIT. -/
  | asleep
  /-- FUTEX_WAIT has returned; about to decrement num_contenders_. -/
  | lockDec
  /-- ExclusiveTryLock: about to read state_. -/
  | tryRead
  /-- ExclusiveTryLock: read 0, about to CAS state_ from 0 to 1. -/
  | tryCas
  /-- Holding the mutex, outside ExclusiveUnlock. -/
  | held
  /-- ExclusiveUnlock: about to read state_. -/
  | unlockRead
  /-- ExclusiveUnlock: read 1, about to CAS state_ from 1 to 0. -/
  | unlockCas
  /-- ExclusiveUnlock: past the CAS, about to read num_contenders_. -/
  | unlockCheck
  /-- ExclusiveUnlock: about to FUTEX_WAKE(state_, 1). -/
  | unlockWake
  deriving DecidableEq

namespace MutexPc

/-- Between a successful lock and the CAS of its unlock. -/
def holds : MutexPc → Bool
  | held | unlockRead | unlockCas => true
  | _ => false

/-- Counted in num_contenders_: between its increment and its decrement. -/
def contends : MutexPc → Bool
  | lockWait | asleep | lockDec => true
  | _ => false

/-- Awake in the mutex's code, and bound to take the mutex or to wake a
    sleeper: inside a lock call before its CAS, or between an unlock's CAS
    and its FUTEX_WAKE. -/
def busy : MutexPc → Bool
  | lockRead | lockCas | lockInc | lockWait | lockDec | tryRead | tryCas => true
  | unlockCheck | unlockWake => true
  | _ => false

/-- Between an unlock's CAS and its FUTEX_WAKE. -/
def waking : MutexPc → Bool
  | unlockCheck | unlockWake => true
  | _ => false

end MutexPc

/-- A mutex's state_ and num_contenders_, and where each thread is. -/
structure MutexState (τ : Type) where
  state_ : Int
  num_contenders_ : Nat
  pc : τ → MutexPc

variable {τ : Type}

/-- state_ is 0 and nobody holds the mutex, or it is 1 and one thread does. -/
def MutexOwned (state_ : Int) (pc : τ → MutexPc) : Prop :=
  (state_ = 0 ∧ ∀ t, (pc t).holds = false) ∨
    (state_ = 1 ∧ ∃ h, (pc h).holds = true ∧ ∀ t, (pc t).holds = true → t = h)

theorem MutexOwned.of_holds {st : Int} {pc pc' : τ → MutexPc}
    (h : MutexOwned st pc) (hh : ∀ u, (pc' u).holds = (pc u).holds) : MutexOwned st pc' := by
  rcases h with ⟨h0, hnone⟩ | ⟨h1, o, ho, huniq⟩
  · exact .inl ⟨h0, fun t => (hh t).trans (hnone t)⟩
  · exact .inr ⟨h1, o, (hh o).trans ho, fun t ht => huniq t ((hh t).symm.trans ht)⟩

theorem MutexOwned.state_eq_zero_or_one {st : Int} {pc : τ → MutexPc} (h : MutexOwned st pc) :
    st = 0 ∨ st = 1 := by
  rcases h with ⟨h0, -⟩ | ⟨h1, -⟩
  · exact .inl h0
  · exact .inr h1

theorem MutexOwned.holds_unique {st : Int} {pc : τ → MutexPc} (h : MutexOwned st pc) {t u : τ}
    (ht : (pc t).holds = true) (hu : (pc u).holds = true) : t = u := by
  rcases h with ⟨-, hnone⟩ | ⟨-, o, -, huniq⟩
  · rw [hnone t] at ht
    cases ht
  · rw [huniq t ht, huniq u hu]

/-- A sleeper while the mutex is free has a busy thread beside it. -/
def MutexWitnessed (state_ : Int) (pc : τ → MutexPc) : Prop :=
  ∀ z, pc z = .asleep → state_ = 0 → ∃ u, (pc u).busy = true

/-- No wake-up is lost in the strict sense: a sleeper while the mutex is
    free has a thread between its unlock's CAS and its FUTEX_WAKE. -/
def MutexWakePending (state_ : Int) (pc : τ → MutexPc) : Prop :=
  ∀ z, pc z = .asleep → state_ = 0 → ∃ u, (pc u).waking = true

namespace MutexPc

/-- A move of one thread from `q` to `p` that changes no shared word: the
    thread keeps whether it holds the mutex and whether it is counted, stays
    busy if it was, and falls asleep only if it was asleep. -/
def quietMove (q p : MutexPc) : Bool :=
  p.holds == q.holds && p.contends == q.contends && (!q.busy || p.busy) &&
    (p != .asleep || q == .asleep)

end MutexPc

variable [DecidableEq τ]

/-- Move one thread. -/
def MutexState.setPc (s : MutexState τ) (t : τ) (p : MutexPc) : MutexState τ :=
  { s with pc := Function.update s.pc t p }

theorem setPc_pc_self (s : MutexState τ) (t : τ) (p : MutexPc) : (s.setPc t p).pc t = p :=
  Function.update_self _ _ _

theorem setPc_pc_of_ne (s : MutexState τ) {t u : τ} (p : MutexPc) (h : u ≠ t) :
    (s.setPc t p).pc u = s.pc u :=
  Function.update_of_ne h _ _

theorem MutexOwned.update {st : Int} {pc : τ → MutexPc} (h : MutexOwned st pc) {t : τ}
    {p : MutexPc} (hh : p.holds = (pc t).holds) : MutexOwned st (Function.update pc t p) := by
  refine h.of_holds fun u => ?_
  by_cases hu : u = t
  · subst hu
    rw [Function.update_self]
    exact hh
  · rw [Function.update_of_ne hu]

/-- Moving one thread keeps the witnesses as long as it stays busy if it
    was, and falls asleep only if it was asleep. -/
theorem MutexWitnessed.update {st : Int} {pc : τ → MutexPc} (hw : MutexWitnessed st pc) {t : τ}
    {p : MutexPc} (hb : (pc t).busy = true → p.busy = true) (ha : p = .asleep → pc t = .asleep) :
    MutexWitnessed st (Function.update pc t p) := by
  intro z hz h0
  -- the sleeper slept before; its busy thread is t, which stays busy, or another
  have hz' : pc z = .asleep := by
    by_cases hzt : z = t
    · subst hzt
      rw [Function.update_self] at hz
      exact ha hz
    · rwa [Function.update_of_ne hzt] at hz
  rcases hw z hz' h0 with ⟨u, hu⟩
  refine ⟨u, ?_⟩
  by_cases hut : u = t
  · subst hut
    rw [Function.update_self]
    exact hb hu
  · rw [Function.update_of_ne hut]
    exact hu

variable [Fintype τ]

/-- The next atomic access of thread `t`, none for a thread outside the
    calls, holding the mutex or asleep. -/
def mutexNext (s : MutexState τ) (t : τ) : Option (MutexState τ) :=
  match s.pc t with
  | .lockRead => some (s.setPc t (if s.state_ = 0 then .lockCas else .lockInc))
  | .lockCas =>
    if s.state_ = 0 then some { s.setPc t .held with state_ := 1 } else some (s.setPc t .lockRead)
  | .lockInc => some { s.setPc t .lockWait with num_contenders_ := s.num_contenders_ + 1 }
  | .lockWait => some (s.setPc t (if s.state_ = 1 then .asleep else .lockDec))
  | .lockDec => some { s.setPc t .lockRead with num_contenders_ := s.num_contenders_ - 1 }
  | .tryRead => some (s.setPc t (if s.state_ = 0 then .tryCas else .idle))
  | .tryCas =>
    if s.state_ = 0 then some { s.setPc t .held with state_ := 1 } else some (s.setPc t .tryRead)
  -- any other state_ is LOG(FATAL)
  | .unlockRead => if s.state_ = 1 then some (s.setPc t .unlockCas) else none
  | .unlockCas =>
    if s.state_ = 1 then some { s.setPc t .unlockCheck with state_ := 0 }
    else some (s.setPc t .unlockRead)
  | .unlockCheck => some (s.setPc t (if 0 < s.num_contenders_ then .unlockWake else .idle))
  -- FUTEX_WAKE with nobody asleep
  | .unlockWake => if ∀ u, s.pc u ≠ .asleep then some (s.setPc t .idle) else none
  | _ => none

/-- The steps of the threads on one mutex. -/
inductive MutexCall (τ : Type)
  /-- Call ExclusiveLock. -/
  | lock (t : τ)
  /-- Call ExclusiveTryLock. -/
  | tryLock (t : τ)
  /-- Call ExclusiveUnlock. -/
  | unlock (t : τ)
  /-- The next atomic access of `t`. -/
  | next (t : τ)
  /-- `t`'s FUTEX_WAKE wakes the sleeper `u`. -/
  | wake (t u : τ)
  /-- `t`'s FUTEX_WAIT returns EINTR. -/
  | eintr (t : τ)

/-- One step. -/
def mutexStep : MutexCall τ → MutexState τ → Option (MutexState τ)
  | .lock t, s => if s.pc t = .idle then some (s.setPc t .lockRead) else none
  | .tryLock t, s => if s.pc t = .idle then some (s.setPc t .tryRead) else none
  | .unlock t, s => if s.pc t = .held then some (s.setPc t .unlockRead) else none
  | .next t, s => mutexNext s t
  | .wake t u, s =>
    if s.pc t = .unlockWake ∧ s.pc u = .asleep then some ((s.setPc u .lockDec).setPc t .idle)
    else none
  | .eintr t, s => if s.pc t = .asleep then some (s.setPc t .lockDec) else none

/-- A new mutex: state_ and num_contenders_ 0, no thread in its code. -/
def MutexState.IsInitial (s : MutexState τ) : Prop :=
  s.state_ = 0 ∧ s.num_contenders_ = 0 ∧ ∀ t, s.pc t = .idle

/-- The threads on one mutex. -/
def mutexSystem (τ : Type) [Fintype τ] [DecidableEq τ] : System (MutexState τ) (MutexCall τ) :=
  System.ofFun MutexState.IsInitial mutexStep

/-- The invariant of the runs. -/
structure MutexInv (s : MutexState τ) : Prop where
  owned : MutexOwned s.state_ s.pc
  contenders : s.num_contenders_ = countWhere (fun p : MutexPc => p.contends = true) s.pc
  witness : MutexWitnessed s.state_ s.pc

section Invariant

variable {s s' : MutexState τ}

/-- A quiet move of one thread. -/
theorem MutexInv.move (hinv : MutexInv s) {t : τ} {q p : MutexPc} (hq : s.pc t = q)
    (hm : q.quietMove p = true) : MutexInv (s.setPc t p) := by
  simp only [MutexPc.quietMove, Bool.and_eq_true, beq_iff_eq, Bool.or_eq_true, Bool.not_eq_true',
    bne_iff_ne, ne_eq] at hm
  rcases hm with ⟨⟨⟨hh, hc⟩, hb⟩, ha⟩
  subst hq
  refine ⟨hinv.owned.update hh, ?_, hinv.witness.update ?_ ?_⟩
  · show s.num_contenders_ = countWhere _ (Function.update s.pc t p)
    rw [countWhere_update_of_iff (by rw [hc]), hinv.contenders]
  · intro hbt
    rcases hb with hb | hb
    · rw [hbt] at hb
      cases hb
    · exact hb
  · intro hp
    rcases ha with ha | ha
    · exact absurd hp ha
    · exact ha

/-- A CAS that takes the free mutex. -/
theorem MutexInv.acquire (hinv : MutexInv s) {t : τ} (hfree : s.state_ = 0)
    (hc : (s.pc t).contends = false) :
    MutexInv { s.setPc t .held with state_ := 1 } := by
  rcases hinv.owned with ⟨-, hnone⟩ | ⟨h1, -⟩
  · refine ⟨.inr ⟨rfl, t, by rw [setPc_pc_self]; rfl, fun u hu => ?_⟩, ?_, fun _ _ h0 => ?_⟩
    · by_contra hut
      rw [setPc_pc_of_ne s _ hut, hnone u] at hu
      cases hu
    · show s.num_contenders_ = countWhere _ (Function.update s.pc t .held)
      rw [countWhere_update_of_iff (by rw [hc]; rfl), hinv.contenders]
    · cases h0
  · rw [hfree] at h1
    cases h1

/-- The increment of num_contenders_ before FUTEX_WAIT. -/
theorem MutexInv.lockInc (hinv : MutexInv s) {t : τ} (ht : s.pc t = .lockInc) :
    MutexInv { s.setPc t .lockWait with num_contenders_ := s.num_contenders_ + 1 } where
  owned := hinv.owned.update (by rw [ht]; rfl)
  contenders := by
    show s.num_contenders_ + 1 = countWhere _ (Function.update s.pc t .lockWait)
    rw [countWhere_update_of_enter (p := fun p : MutexPc => p.contends = true)
      (by rw [ht]; exact Bool.false_ne_true) rfl,
      hinv.contenders]
  witness := hinv.witness.update (fun _ => rfl) (fun h => by cases h)

/-- The decrement of num_contenders_ after FUTEX_WAIT. -/
theorem MutexInv.lockDec (hinv : MutexInv s) {t : τ} (ht : s.pc t = .lockDec) :
    MutexInv { s.setPc t .lockRead with num_contenders_ := s.num_contenders_ - 1 } where
  owned := hinv.owned.update (by rw [ht]; rfl)
  contenders := by
    show s.num_contenders_ - 1 = countWhere _ (Function.update s.pc t .lockRead)
    have h := countWhere_update_of_leave (p := fun p : MutexPc => p.contends = true) (f := s.pc)
      (t := t) (a := .lockRead) (by rw [ht]; rfl) (fun h => by cases h)
    rw [hinv.contenders]
    omega
  witness := hinv.witness.update (fun _ => rfl) (fun h => by cases h)

/-- A thread that leaves the busy phases while the mutex is held. -/
theorem MutexInv.leave_held (hinv : MutexInv s) {t : τ} {p : MutexPc} (hheld : s.state_ ≠ 0)
    (hh : p.holds = (s.pc t).holds) (hc : p.contends = (s.pc t).contends) :
    MutexInv (s.setPc t p) where
  owned := hinv.owned.update hh
  contenders := by
    show s.num_contenders_ = countWhere _ (Function.update s.pc t p)
    rw [countWhere_update_of_iff (by rw [hc]), hinv.contenders]
  witness _ _ h0 := absurd h0 hheld

/-- An unlocker that finds nobody to wake goes back to idle. -/
theorem MutexInv.leave_unwatched (hinv : MutexInv s) {t : τ} (hnone : ∀ u, s.pc u ≠ .asleep)
    (hh : (s.pc t).holds = false) (hc : (s.pc t).contends = false) :
    MutexInv (s.setPc t .idle) where
  owned := hinv.owned.update (by rw [hh]; rfl)
  contenders := by
    show s.num_contenders_ = countWhere _ (Function.update s.pc t .idle)
    rw [countWhere_update_of_iff (by rw [hc]; rfl), hinv.contenders]
  witness z hz _ := by
    by_cases hzt : z = t
    · subst hzt
      rw [setPc_pc_self] at hz
      cases hz
    · rw [setPc_pc_of_ne s _ hzt] at hz
      exact absurd hz (hnone z)

/-- The CAS of ExclusiveUnlock: the mutex is free, and the unlocker is busy. -/
theorem MutexInv.release (hinv : MutexInv s) {t : τ} (ht : s.pc t = .unlockCas) :
    MutexInv { s.setPc t .unlockCheck with state_ := 0 } := by
  rcases hinv.owned with ⟨-, hnone⟩ | ⟨-, o, -, huniq⟩
  · have := hnone t
    rw [ht] at this
    cases this
  · have hto : t = o := huniq t (by rw [ht]; rfl)
    subst hto
    refine ⟨.inl ⟨rfl, fun u => ?_⟩, ?_, fun _ _ _ => ⟨t, by rw [setPc_pc_self]; rfl⟩⟩
    · by_cases hut : u = t
      · subst hut
        rw [setPc_pc_self]
        rfl
      · rw [setPc_pc_of_ne s _ hut]
        by_contra hu
        exact hut (huniq u (Bool.eq_true_of_not_eq_false hu))
    · show s.num_contenders_ = countWhere _ (Function.update s.pc t .unlockCheck)
      rw [countWhere_update_of_iff (by rw [ht]; rfl), hinv.contenders]

/-- FUTEX_WAKE wakes the sleeper `u`, which is busy from then on. -/
theorem MutexInv.wake (hinv : MutexInv s) {t u : τ} (ht : s.pc t = .unlockWake)
    (hu : s.pc u = .asleep) : MutexInv ((s.setPc u .lockDec).setPc t .idle) := by
  have htu : t ≠ u := fun h => by
    rw [h, hu] at ht
    cases ht
  have h₁ : MutexInv (s.setPc u .lockDec) := hinv.move hu rfl
  have h₂ : (s.setPc u .lockDec).pc t = .unlockWake := by rw [setPc_pc_of_ne s _ htu, ht]
  refine ⟨h₁.owned.update (by rw [h₂]; rfl), ?_, fun z hz h0 => ⟨u, ?_⟩⟩
  · show s.num_contenders_ = countWhere _ (Function.update (s.setPc u .lockDec).pc t .idle)
    rw [countWhere_update_of_iff (by rw [h₂]; rfl), ← h₁.contenders]
    rfl
  · show (Function.update (Function.update s.pc u .lockDec) t .idle u).busy = true
    rw [Function.update_of_ne htu.symm, Function.update_self]
    rfl

theorem MutexInv.next (hinv : MutexInv s) {t : τ} (h : mutexNext s t = some s') :
    MutexInv s' := by
  cases hp : s.pc t with
  | lockRead =>
    simp only [mutexNext, hp, Option.some.injEq] at h
    subst h
    by_cases h0 : s.state_ = 0
    · rw [if_pos h0]
      exact hinv.move hp rfl
    · rw [if_neg h0]
      exact hinv.move hp rfl
  | lockCas =>
    simp only [mutexNext, hp] at h
    by_cases h0 : s.state_ = 0
    · rw [if_pos h0, Option.some_inj] at h
      subst h
      exact hinv.acquire h0 (by rw [hp]; rfl)
    · rw [if_neg h0, Option.some_inj] at h
      subst h
      exact hinv.move hp rfl
  | lockInc =>
    simp only [mutexNext, hp, Option.some.injEq] at h
    subst h
    exact hinv.lockInc hp
  | lockWait =>
    simp only [mutexNext, hp, Option.some.injEq] at h
    subst h
    by_cases h1 : s.state_ = 1
    · -- FUTEX_WAIT sleeps only while the mutex is held
      rw [if_pos h1]
      exact hinv.leave_held (by rw [h1]; decide) (by rw [hp]; rfl) (by rw [hp]; rfl)
    · rw [if_neg h1]
      exact hinv.move hp rfl
  | lockDec =>
    simp only [mutexNext, hp, Option.some.injEq] at h
    subst h
    exact hinv.lockDec hp
  | tryRead =>
    simp only [mutexNext, hp, Option.some.injEq] at h
    subst h
    by_cases h0 : s.state_ = 0
    · rw [if_pos h0]
      exact hinv.move hp rfl
    · rw [if_neg h0]
      exact hinv.leave_held h0 (by rw [hp]; rfl) (by rw [hp]; rfl)
  | tryCas =>
    simp only [mutexNext, hp] at h
    by_cases h0 : s.state_ = 0
    · rw [if_pos h0, Option.some_inj] at h
      subst h
      exact hinv.acquire h0 (by rw [hp]; rfl)
    · rw [if_neg h0, Option.some_inj] at h
      subst h
      exact hinv.move hp rfl
  | unlockRead =>
    simp only [mutexNext, hp] at h
    by_cases h1 : s.state_ = 1
    · rw [if_pos h1, Option.some_inj] at h
      subst h
      exact hinv.move hp rfl
    · rw [if_neg h1] at h
      cases h
  | unlockCas =>
    simp only [mutexNext, hp] at h
    by_cases h1 : s.state_ = 1
    · rw [if_pos h1, Option.some_inj] at h
      subst h
      exact hinv.release hp
    · rw [if_neg h1, Option.some_inj] at h
      subst h
      exact hinv.move hp rfl
  | unlockCheck =>
    simp only [mutexNext, hp, Option.some.injEq] at h
    subst h
    by_cases hc : 0 < s.num_contenders_
    · rw [if_pos hc]
      exact hinv.move hp rfl
    · -- no contender, so nobody sleeps
      rw [if_neg hc]
      refine hinv.leave_unwatched (fun u hu => hc ?_) (by rw [hp]; rfl) (by rw [hp]; rfl)
      rw [hinv.contenders]
      exact countWhere_pos_iff.mpr ⟨u, by rw [hu]; rfl⟩
  | unlockWake =>
    simp only [mutexNext, hp] at h
    by_cases hnone : ∀ u, s.pc u ≠ .asleep
    · rw [if_pos hnone, Option.some_inj] at h
      subst h
      exact hinv.leave_unwatched hnone (by rw [hp]; rfl) (by rw [hp]; rfl)
    · rw [if_neg hnone] at h
      cases h
  | idle | asleep | held =>
    simp only [mutexNext, hp] at h
    cases h

theorem MutexInv.step (hinv : MutexInv s) {c : MutexCall τ} (h : mutexStep c s = some s') :
    MutexInv s' := by
  cases c with
  | lock t | tryLock t =>
    by_cases ht : s.pc t = .idle
    · rw [mutexStep, if_pos ht, Option.some_inj] at h
      subst h
      exact hinv.move ht rfl
    · rw [mutexStep, if_neg ht] at h
      cases h
  | unlock t =>
    by_cases ht : s.pc t = .held
    · rw [mutexStep, if_pos ht, Option.some_inj] at h
      subst h
      exact hinv.move ht rfl
    · rw [mutexStep, if_neg ht] at h
      cases h
  | next t => exact hinv.next h
  | wake t u =>
    by_cases htu : s.pc t = .unlockWake ∧ s.pc u = .asleep
    · rw [mutexStep, if_pos htu, Option.some_inj] at h
      subst h
      exact hinv.wake htu.1 htu.2
    · rw [mutexStep, if_neg htu] at h
      cases h
  | eintr t =>
    by_cases ht : s.pc t = .asleep
    · rw [mutexStep, if_pos ht, Option.some_inj] at h
      subst h
      exact hinv.move ht rfl
    · rw [mutexStep, if_neg ht] at h
      cases h

theorem mutexInv_reach (hs : (mutexSystem τ).Reach s) : MutexInv s := by
  refine System.Inductive.reach ⟨?_, ?_⟩ hs
  · intro s hinit
    rcases hinit with ⟨h0, hc, hidle⟩
    refine ⟨.inl ⟨h0, fun t => by rw [hidle]; rfl⟩, ?_, fun z hz _ => ?_⟩
    · -- nobody is counted in a new mutex
      rw [hc, eq_comm, ← Nat.le_zero, ← Nat.not_lt, countWhere_pos_iff]
      intro hx
      rcases hx with ⟨x, hx⟩
      rw [hidle] at hx
      cases hx
    · rw [hidle] at hz
      cases hz
  · intro c s s' hinv h
    exact hinv.step h

end Invariant

/-- Thread 0 takes the mutex, threads 1 and 2 fall asleep on it, and the
    FUTEX_WAKE of 0's unlock wakes 1. -/
def twoSleepersCalls : List (MutexCall (Fin 3)) :=
  [.lock 0, .next 0, .next 0,
    .lock 1, .next 1, .next 1, .next 1,
    .lock 2, .next 2, .next 2, .next 2,
    .unlock 0, .next 0, .next 0, .next 0, .wake 0 1]

theorem mutex_sleeper_while_free :
    ∃ s, (mutexSystem (Fin 3)).Reach s ∧ ¬ MutexWakePending s.state_ s.pc := by
  have hrun : (System.runFun mutexStep ⟨0, 0, fun _ => .idle⟩ twoSleepersCalls).map
      (fun s => decide (s.state_ = 0) && decide (s.pc 2 = .asleep) &&
        (List.finRange 3).all fun u => !(s.pc u).waking) = some true := by
    decide
  have hinit : MutexState.IsInitial (⟨0, 0, fun _ => .idle⟩ : MutexState (Fin 3)) :=
    ⟨rfl, rfl, fun _ => rfl⟩
  rcases System.exists_reach_of_runFun hinit hrun with ⟨s, hs, hp⟩
  refine ⟨s, hs, fun hpend => ?_⟩
  simp only [Bool.and_eq_true, decide_eq_true_eq, List.all_eq_true, Bool.not_eq_true'] at hp
  rcases hp with ⟨⟨h0, h2⟩, hall⟩
  -- thread 2 sleeps while the mutex is free, and nobody is waking
  rcases hpend 2 h2 h0 with ⟨u, hu⟩
  rw [hall u (List.mem_finRange u)] at hu
  cases hu

end ArtRuntime
