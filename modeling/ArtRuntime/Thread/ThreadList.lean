import Mathlib
import ArtRuntime.Core.Reach
import ArtRuntime.Core.Word

/-!
# Suspend Counts of the Thread List

Every `Thread` keeps a `suspend_count_`, the part of it the debugger asked
for (`debug_suspend_count_`), and a `kSuspendRequest` flag that tells it to
stop at its next suspend check. `Thread::ModifySuspendCount` moves both
counts and the flag together, and dies in `UnsafeLogFatalForSuspendCount` if
asked to lower a count that is already zero. The `ThreadList` changes the
counts of every other thread at once, under `thread_list_lock_` and
`thread_suspend_count_lock_`: `SuspendAll` and `ResumeAll` by one each,
`SuspendAllForDebugger` by one for the debugger (skipping the JDWP thread),
`UndoDebuggerSuspensions` by all of a thread's debugger suspensions. It
also keeps global counts of the suspensions in force, `suspend_all_count_`
and `debug_suspend_all_count_`, which `Register` copies into a thread that
attaches in the middle of them. All four counts are `int`s.

Each operation is modelled as the critical section it is, so a run is any
interleaving of them. Beside the thread list the model keeps the callers of
the `SuspendAll`s that no `ResumeAll` has yet matched (`SuspendState`):
what a thread's count should be is stated from them. The invariant
(`SuspendInv`) says that every registered thread's count is its debugger
suspensions plus one for each pending `SuspendAll` of another thread, that
the flag is set exactly when the count is not zero, and that the global
counts add up the same way. A call raises a count by one at most, so after
`n` calls no count is above `n` (`CountsBelow`). While `n + 1` stays below
`2 ^ 31` no count wraps, and each call keeps the invariant and does not die
(`step_ok`). Nothing in the runtime bounds the calls, though:
`2 ^ 31` calls of `SuspendAllForDebugger` wrap another thread's counts to
`-2 ^ 31` (`suspend_counts_overflow`).

## Main definitions

* `Thread`, `Thread.modifySuspendCount`: A thread's suspension fields and
  `ModifySuspendCount`.
* `ThreadList`, `ThreadList.modifySuspendCounts`: The thread list and its
  loop over the other threads.
* `ThreadList.register`, `suspendAll`, `resumeAll`, `resume`,
  `suspendAllForDebugger`, `suspendSelfForDebugger`,
  `undoDebuggerSuspensions`: The operations.
* `SuspendState`, `Op`, `Op.step`, `threadListSystem`: The thread list with
  the pending `SuspendAll`s, and its runs.
* `SuspendInv`, `CountsBelow`: The invariant, and a bound on the counts.

## Theorems

* `modifySuspendCounts_eq`: The loop changes each thread it does not skip,
  once.
* `step_ok`: Every call a thread may make, with the counts below
  `2 ^ 31 - 1`, keeps the invariant, raises the bound by one and does not
  die.
* `SuspendInv.run`: So does every run, while the bound stays below `2 ^ 31`.
* `undoDebuggerSuspensions_counts`: After `UndoDebuggerSuspensions` only the
  pending `SuspendAll`s of others are counted.
* `suspend_counts_consistent`: After fewer than `2 ^ 31 - 1` calls the
  counts are consistent, no call dies, and `UndoDebuggerSuspensions` leaves
  every other thread suspended once for each pending `SuspendAll` of
  another.
* `suspend_counts_overflow`: After `2 ^ 31` calls of `SuspendAllForDebugger`
  a thread's counts are negative and `kSuspendRequest` is set.
-/

namespace ArtRuntime

open TransitionSystem MachineWord

/-- The suspension fields of a `Thread`: `suspend_count_`,
    `debug_suspend_count_`, and whether `kSuspendRequest` is set in its
    flags. -/
structure Thread where
  suspend_count : Int32
  debug_suspend_count : Int32
  suspend_request : Bool
  deriving DecidableEq, Repr

namespace Thread

/-- The constructor's values: no suspension and no flags. -/
def init : Thread := ⟨0, 0, false⟩

/-- What `ModifySuspendCount` does past its check: both counts move, and
    `kSuspendRequest` is cleared at zero and set otherwise. -/
def addSuspendCount (th : Thread) (delta : Int32) (for_debugger : Bool) : Thread :=
  let suspend_count := th.suspend_count + delta
  { suspend_count := suspend_count,
    debug_suspend_count := if for_debugger then th.debug_suspend_count + delta else th.debug_suspend_count,
    suspend_request := suspend_count ≠ 0 }

/-- `Thread::ModifySuspendCount`; `none` where it calls
    `UnsafeLogFatalForSuspendCount`. -/
def modifySuspendCount (th : Thread) (delta : Int32) (for_debugger : Bool) : Option Thread :=
  if delta < 0 ∧ th.suspend_count ≤ 0 then none
  else some (th.addSuspendCount delta for_debugger)

theorem modifySuspendCount_eq {th : Thread} {delta : Int32} (for_debugger : Bool)
    (h : 0 ≤ delta.toInt ∨ 0 < th.suspend_count.toInt) :
    th.modifySuspendCount delta for_debugger = some (th.addSuspendCount delta for_debugger) := by
  rw [modifySuspendCount, if_neg]
  rw [Int32.lt_iff_toInt_lt, Int32.le_iff_toInt_le, Int32.toInt_zero]
  omega

/-- Without wrap-around the count moves by `delta`. -/
theorem addSuspendCount_count (th : Thread) (delta : Int32) (for_debugger : Bool)
    (h₁ : -2 ^ 31 ≤ th.suspend_count.toInt + delta.toInt)
    (h₂ : th.suspend_count.toInt + delta.toInt < 2 ^ 31) :
    (th.addSuspendCount delta for_debugger).suspend_count.toInt =
      th.suspend_count.toInt + delta.toInt :=
  toInt_add_of_range h₁ h₂

end Thread

/-- The `ThreadList`: `list_`, the threads' fields, and the global counts. -/
structure ThreadList (τ : Type) where
  list : List τ
  threads : τ → Thread
  suspend_all_count : Int32
  debug_suspend_all_count : Int32

namespace ThreadList

variable {τ : Type} [DecidableEq τ]

/-- The loop of the suspend operations over `list_`: `ModifySuspendCount`
    with `delta` of each thread that `skip` does not pass over, in order,
    dying with the first that dies. -/
def modifySuspendCounts (skip : τ → Thread → Bool) (delta : Thread → Int32) (for_debugger : Bool) :
    List τ → (τ → Thread) → Option (τ → Thread)
  | [], threads => some threads
  | t :: ts, threads =>
    if skip t (threads t) then modifySuspendCounts skip delta for_debugger ts threads
    else
      match (threads t).modifySuspendCount (delta (threads t)) for_debugger with
      | none => none
      | some th => modifySuspendCounts skip delta for_debugger ts (Function.update threads t th)

/-- `ThreadList::Register`: the new thread takes the suspensions in force;
    registering a thread twice fails its `CHECK`. -/
def register (tl : ThreadList τ) (self : τ) : Option (ThreadList τ) :=
  let th := { tl.threads self with
    suspend_count := tl.suspend_all_count, debug_suspend_count := tl.debug_suspend_all_count }
  let th := if th.suspend_count > 0 then { th with suspend_request := true } else th
  if self ∈ tl.list then none
  else some { tl with list := tl.list ++ [self], threads := Function.update tl.threads self th }

/-- The counting part of `ThreadList::SuspendAll`. -/
def suspendAll (tl : ThreadList τ) (self : τ) : Option (ThreadList τ) :=
  (modifySuspendCounts (fun t _ => t = self) (fun _ => 1) false tl.list tl.threads).map fun threads =>
    { tl with threads := threads, suspend_all_count := tl.suspend_all_count + 1 }

/-- The counting part of `ThreadList::ResumeAll`. -/
def resumeAll (tl : ThreadList τ) (self : τ) : Option (ThreadList τ) :=
  (modifySuspendCounts (fun t _ => t = self) (fun _ => -1) false tl.list tl.threads).map fun threads =>
    { tl with threads := threads, suspend_all_count := tl.suspend_all_count - 1 }

/-- The counting part of `ThreadList::Resume(thread, true)`: a thread no
    longer in the list is left alone. -/
def resume (tl : ThreadList τ) (thread : τ) : Option (ThreadList τ) :=
  if thread ∉ tl.list then some tl
  else ((tl.threads thread).modifySuspendCount (-1) true).map fun th =>
    { tl with threads := Function.update tl.threads thread th }

/-- The counting part of `ThreadList::SuspendAllForDebugger`, which skips
    the debugger's own thread. -/
def suspendAllForDebugger (debug_thread : Option τ) (tl : ThreadList τ) (self : τ) :
    Option (ThreadList τ) :=
  (modifySuspendCounts (fun t _ => t = self ∨ some t = debug_thread) (fun _ => 1) true tl.list
      tl.threads).map fun threads =>
    { tl with
      threads := threads
      suspend_all_count := tl.suspend_all_count + 1
      debug_suspend_all_count := tl.debug_suspend_all_count + 1 }

/-- The counting part of `ThreadList::SuspendSelfForDebugger`, with its
    `CHECK_GT(self->suspend_count_, 0)`. -/
def suspendSelfForDebugger (tl : ThreadList τ) (self : τ) : Option (ThreadList τ) :=
  match (tl.threads self).modifySuspendCount 1 true with
  | none => none
  | some th =>
    if th.suspend_count > 0 then some { tl with threads := Function.update tl.threads self th }
    else none

/-- The counting part of `ThreadList::UndoDebuggerSuspensions`: every other
    thread with debugger suspensions loses all of them. -/
def undoDebuggerSuspensions (tl : ThreadList τ) (self : τ) : Option (ThreadList τ) :=
  (modifySuspendCounts (fun t th => t = self ∨ th.debug_suspend_count = 0)
      (fun th => -th.debug_suspend_count) true tl.list tl.threads).map fun threads =>
    { tl with
      threads := threads
      suspend_all_count := tl.suspend_all_count - tl.debug_suspend_all_count
      debug_suspend_all_count := 0 }

/-- The loop changes each thread of a list without repeats that it does not
    skip, once, into the thread `g` names, when none of them dies. -/
theorem modifySuspendCounts_eq {k : τ → Thread → Bool} {d : Thread → Int32} {f : Bool}
    {g : τ → Thread} :
    ∀ {ts : List τ} {threads : τ → Thread}, ts.Nodup →
      (∀ t ∈ ts, k t (threads t) = false → (threads t).modifySuspendCount (d (threads t)) f = some (g t)) →
      modifySuspendCounts k d f ts threads =
        some fun u => if u ∈ ts ∧ k u (threads u) = false then g u else threads u
  | [], threads, _, _ => by
    rw [modifySuspendCounts]
    simp
  | t :: ts, threads, hnd, hg => by
    obtain ⟨ht, hnd'⟩ := List.nodup_cons.1 hnd
    rw [modifySuspendCounts]
    by_cases hskip : k t (threads t) = true
    · -- a skipped thread keeps its fields
      rw [if_pos hskip, modifySuspendCounts_eq hnd' fun u hu => hg u (List.mem_cons_of_mem t hu)]
      congr 1
      funext u
      by_cases hu : u = t
      · subst hu
        simp [hskip, ht]
      · simp [hu]
    · rw [if_neg hskip, hg t List.mem_cons_self (by simpa using hskip)]
      dsimp only
      -- the rest of the loop sees this thread's fields changed, the others' not
      have hrest : ∀ u ∈ ts, k u (Function.update threads t (g t) u) = false →
          (Function.update threads t (g t) u).modifySuspendCount
            (d (Function.update threads t (g t) u)) f = some (g u) := by
        intro u hu
        have hne : u ≠ t := fun h => ht (h ▸ hu)
        rw [Function.update_of_ne hne]
        exact hg u (List.mem_cons_of_mem t hu)
      rw [modifySuspendCounts_eq hnd' hrest]
      congr 1
      funext u
      by_cases hu : u = t
      · subst hu
        simp [ht, hskip]
      · simp [hu]

end ThreadList

/-! ### Runs -/

/-- The thread list, and the callers of the `SuspendAll`s no `ResumeAll` has
    matched yet, one entry for each call. -/
structure SuspendState (τ : Type) where
  tl : ThreadList τ
  pending : List τ

/-- No thread registered and nothing suspended. -/
def SuspendState.initial {τ : Type} : SuspendState τ := ⟨⟨[], fun _ => Thread.init, 0, 0⟩, []⟩

/-- The critical sections a thread runs; `resume` is `Resume(thread, true)`. -/
inductive Op (τ : Type) where
  | register (self : τ)
  | suspendAll (self : τ)
  | resumeAll (self : τ)
  | suspendAllForDebugger (self : τ)
  | resume (thread : τ)
  | suspendSelfForDebugger (self : τ)
  | undoDebuggerSuspensions (self : τ)
  deriving DecidableEq, Repr

namespace Op

variable {τ : Type} [DecidableEq τ]

/-- The calls a thread may make: a thread registers once and calls the
    others once registered, a `ResumeAll` matches a `SuspendAll` of its
    caller, and `Resume(thread, true)` resumes a debugger suspension. -/
def Enabled (s : SuspendState τ) : Op τ → Prop
  | .register self => self ∉ s.tl.list
  | .suspendAll self => self ∈ s.tl.list
  | .resumeAll self => self ∈ s.pending
  | .suspendAllForDebugger self => self ∈ s.tl.list
  | .resume thread => 0 < (s.tl.threads thread).debug_suspend_count
  | .suspendSelfForDebugger self => self ∈ s.tl.list
  | .undoDebuggerSuspensions self => self ∈ s.tl.list

instance (s : SuspendState τ) : (op : Op τ) → Decidable (op.Enabled s)
  | .register self => inferInstanceAs (Decidable (self ∉ s.tl.list))
  | .suspendAll self => inferInstanceAs (Decidable (self ∈ s.tl.list))
  | .resumeAll self => inferInstanceAs (Decidable (self ∈ s.pending))
  | .suspendAllForDebugger self => inferInstanceAs (Decidable (self ∈ s.tl.list))
  | .resume thread => inferInstanceAs (Decidable (0 < (s.tl.threads thread).debug_suspend_count))
  | .suspendSelfForDebugger self => inferInstanceAs (Decidable (self ∈ s.tl.list))
  | .undoDebuggerSuspensions self => inferInstanceAs (Decidable (self ∈ s.tl.list))

/-- One critical section; `none` where it dies. -/
def step (debug_thread : Option τ) : Op τ → SuspendState τ → Option (SuspendState τ)
  | .register self, s => (s.tl.register self).map fun tl => { s with tl := tl }
  | .suspendAll self, s => (s.tl.suspendAll self).map fun tl => ⟨tl, self :: s.pending⟩
  | .resumeAll self, s => (s.tl.resumeAll self).map fun tl => ⟨tl, s.pending.erase self⟩
  | .suspendAllForDebugger self, s =>
    (s.tl.suspendAllForDebugger debug_thread self).map fun tl => { s with tl := tl }
  | .resume thread, s => (s.tl.resume thread).map fun tl => { s with tl := tl }
  | .suspendSelfForDebugger self, s =>
    (s.tl.suspendSelfForDebugger self).map fun tl => { s with tl := tl }
  | .undoDebuggerSuspensions self, s =>
    (s.tl.undoDebuggerSuspensions self).map fun tl => { s with tl := tl }

end Op

/-- The thread list under any interleaving of the calls its threads may
    make, `debug_thread` being `Dbg::GetDebugThread()`. -/
def threadListSystem {τ : Type} [DecidableEq τ] (debug_thread : Option τ) :
    System (SuspendState τ) (Op τ) :=
  System.ofFun (· = SuspendState.initial) fun op s =>
    if op.Enabled s then op.step debug_thread s else none

/-- A call a thread may make, and that returns, is a step of the system. -/
theorem threadListSystem_step {τ : Type} [DecidableEq τ] {debug_thread : Option τ} {op : Op τ}
    {s s' : SuspendState τ} (hop : op.Enabled s) (h : op.step debug_thread s = some s') :
    (threadListSystem debug_thread).step op s s' := by
  change (if op.Enabled s then op.step debug_thread s else none) = some s'
  rw [if_pos hop, h]

/-! ### The invariant -/

section Invariant

variable {τ : Type} [DecidableEq τ]

/-- A registered thread's counts: its debugger suspensions, plus one for
    each pending `SuspendAll` of another thread, with `kSuspendRequest` set
    exactly when the count is not zero. -/
structure CountsOk (pending : List τ) (t : τ) (th : Thread) : Prop where
  debug_nonneg : 0 ≤ th.debug_suspend_count.toInt
  count_eq : th.suspend_count.toInt =
    ((pending.filter (· ≠ t)).length : Int) + th.debug_suspend_count.toInt
  request_eq : th.suspend_request = decide (th.suspend_count ≠ 0)

/-- The invariant of the thread list: threads are registered once, the
    pending `SuspendAll`s are of registered threads, a thread not yet
    registered has the constructor's fields, every registered thread's
    counts are right, and the global counts add up the pending calls and
    the debugger's. -/
structure SuspendInv (s : SuspendState τ) : Prop where
  nodup : s.tl.list.Nodup
  pending_registered : ∀ a ∈ s.pending, a ∈ s.tl.list
  unregistered : ∀ t, t ∉ s.tl.list → s.tl.threads t = Thread.init
  counts : ∀ t ∈ s.tl.list, CountsOk s.pending t (s.tl.threads t)
  suspend_all_count_eq :
    s.tl.suspend_all_count.toInt = (s.pending.length : Int) + s.tl.debug_suspend_all_count.toInt
  debug_all_nonneg : 0 ≤ s.tl.debug_suspend_all_count.toInt

/-- The counts are at most `n`: every registered thread's, and the global
    one that `Register` copies. -/
structure CountsBelow (n : Nat) (s : SuspendState τ) : Prop where
  count_le : ∀ t ∈ s.tl.list, (s.tl.threads t).suspend_count.toInt ≤ n
  suspend_all_le : s.tl.suspend_all_count.toInt ≤ n

theorem SuspendInv.initial : SuspendInv (SuspendState.initial : SuspendState τ) where
  nodup := List.nodup_nil
  pending_registered _ h := absurd h List.not_mem_nil
  unregistered _ _ := rfl
  counts _ h := absurd h List.not_mem_nil
  suspend_all_count_eq := rfl
  debug_all_nonneg := le_refl _

omit [DecidableEq τ] in
theorem CountsBelow.initial : CountsBelow 0 (SuspendState.initial : SuspendState τ) where
  count_le _ h := absurd h List.not_mem_nil
  suspend_all_le := le_refl _

/-- A count is never negative. -/
theorem CountsOk.count_nonneg {p : List τ} {t : τ} {th : Thread} (h : CountsOk p t th) :
    0 ≤ th.suspend_count.toInt := by
  have := h.count_eq
  have := h.debug_nonneg
  omega

/-- The same thread, counted against pending calls with as many of
    others. -/
theorem CountsOk.of_length_eq {p p' : List τ} {t : τ} {th : Thread} (h : CountsOk p t th)
    (hlen : (p'.filter (· ≠ t)).length = (p.filter (· ≠ t)).length) : CountsOk p' t th :=
  ⟨h.debug_nonneg, by rw [hlen]; exact h.count_eq, h.request_eq⟩

/-- Moving a thread's counts by `delta` keeps them right when the pending
    calls of others move with it, or its debugger suspensions do, and the
    new count stays below `2 ^ 31`. -/
theorem CountsOk.add {p p' : List τ} {t : τ} {th : Thread} (h : CountsOk p t th) {delta : Int32}
    {for_debugger : Bool} (hbound : th.suspend_count.toInt + delta.toInt < 2 ^ 31)
    (hdebug : 0 ≤ th.debug_suspend_count.toInt + (if for_debugger then delta.toInt else 0))
    (hlen : ((p'.filter (· ≠ t)).length : Int) =
      (p.filter (· ≠ t)).length + (if for_debugger then 0 else delta.toInt)) :
    CountsOk p' t (th.addSuspendCount delta for_debugger) := by
  have hc := h.count_eq
  have hd := h.debug_nonneg
  -- the new count is the pending calls of others and the debugger's, so it did not wrap
  cases for_debugger with
  | false =>
    simp only [Bool.false_eq_true, ↓reduceIte, Int.add_zero] at hdebug hlen
    have hsum := th.addSuspendCount_count delta false (by omega) hbound
    refine ⟨hd, ?_, rfl⟩
    rw [hsum]
    simp only [Thread.addSuspendCount, Bool.false_eq_true, ↓reduceIte]
    omega
  | true =>
    simp only [↓reduceIte, Int.add_zero] at hdebug hlen
    have hsum := th.addSuspendCount_count delta true (by omega) hbound
    have hdsum := toInt_add_of_range (a := th.debug_suspend_count) (b := delta) (by omega) (by omega)
    refine ⟨?_, ?_, rfl⟩
    · simp only [Thread.addSuspendCount, ↓reduceIte, hdsum]
      omega
    · rw [hsum]
      simp only [Thread.addSuspendCount, ↓reduceIte, hdsum]
      omega

/-- The pending calls of others after a `SuspendAll` of `self`. -/
theorem length_filter_cons (p : List τ) (self t : τ) :
    ((self :: p).filter (· ≠ t)).length = (p.filter (· ≠ t)).length + if self = t then 0 else 1 := by
  by_cases h : self = t <;> simp [h]

/-- The pending calls of others after the `ResumeAll` of a pending
    `self`. -/
theorem length_filter_erase {p : List τ} {self : τ} (hself : self ∈ p) (t : τ) :
    ((p.erase self).filter (· ≠ t)).length + (if self = t then 0 else 1) = (p.filter (· ≠ t)).length := by
  rw [← List.erase_filter]
  by_cases h : self = t
  · -- the call of `t` itself was not counted
    subst h
    rw [List.erase_of_not_mem (by simp), if_pos rfl, Nat.add_zero]
  · have hmem : self ∈ p.filter (· ≠ t) := List.mem_filter.2 ⟨hself, by simpa using h⟩
    rw [List.length_erase_of_mem hmem, if_neg h]
    have := List.length_pos_of_mem hmem
    omega

end Invariant

/-! ### Each operation keeps the invariant -/

section Steps

variable {τ : Type} [DecidableEq τ] {s : SuspendState τ} {n : Nat}

/-- Changing one registered thread's fields keeps the invariant when its
    new counts are right. -/
theorem SuspendInv.update (hs : SuspendInv s) {t : τ} (ht : t ∈ s.tl.list) {th : Thread}
    (hth : CountsOk s.pending t th) :
    SuspendInv ⟨{ s.tl with threads := Function.update s.tl.threads t th }, s.pending⟩ := by
  constructor <;> dsimp only
  · exact hs.nodup
  · exact hs.pending_registered
  · intro u hu
    have hne : u ≠ t := by
      rintro rfl
      exact hu ht
    rw [Function.update_of_ne hne]
    exact hs.unregistered u hu
  · intro u hu
    by_cases hut : u = t
    · subst hut
      rw [Function.update_self]
      exact hth
    · rw [Function.update_of_ne hut]
      exact hs.counts u hu
  · exact hs.suspend_all_count_eq
  · exact hs.debug_all_nonneg

/-- Changing one thread to a count at most `n + 1` raises the bound by
    one. -/
theorem CountsBelow.update (hb : CountsBelow n s) {t : τ} {th : Thread}
    (hth : th.suspend_count.toInt ≤ n + 1) :
    CountsBelow (n + 1) ⟨{ s.tl with threads := Function.update s.tl.threads t th }, s.pending⟩ := by
  constructor <;> dsimp only
  · intro u hu
    by_cases hut : u = t
    · subst hut
      rw [Function.update_self]
      omega
    · rw [Function.update_of_ne hut]
      have := hb.count_le u hu
      omega
  · have := hb.suspend_all_le
    omega

/-- A loop over the registered threads keeps the invariant, for the new
    pending calls and global counts, when every thread it changes and every
    thread it skips is counted right against them. -/
theorem SuspendInv.of_loop (hs : SuspendInv s) {k : τ → Thread → Bool} {g : τ → Thread}
    {p : List τ} {a d : Int32}
    (hreg : ∀ b ∈ p, b ∈ s.tl.list)
    (hchanged : ∀ t ∈ s.tl.list, k t (s.tl.threads t) = false → CountsOk p t (g t))
    (hskipped : ∀ t ∈ s.tl.list, k t (s.tl.threads t) = true → CountsOk p t (s.tl.threads t))
    (hsum : a.toInt = (p.length : Int) + d.toInt) (hdebug : 0 ≤ d.toInt) :
    SuspendInv ⟨{ s.tl with
      threads := fun u => if u ∈ s.tl.list ∧ k u (s.tl.threads u) = false then g u else s.tl.threads u
      suspend_all_count := a
      debug_suspend_all_count := d }, p⟩ := by
  constructor <;> dsimp only
  · exact hs.nodup
  · exact hreg
  · intro t ht
    rw [if_neg fun h => ht h.1]
    exact hs.unregistered t ht
  · intro t ht
    by_cases hsk : k t (s.tl.threads t) = false
    · rw [if_pos ⟨ht, hsk⟩]
      exact hchanged t ht hsk
    · rw [if_neg fun h => hsk h.2]
      exact hskipped t ht (by simpa using hsk)
  · exact hsum
  · exact hdebug

/-- A loop that leaves every count it changes at most `n + 1`, and the
    global count too, raises the bound by one. -/
theorem CountsBelow.of_loop (hb : CountsBelow n s) {k : τ → Thread → Bool} {g : τ → Thread}
    {p : List τ} {a d : Int32}
    (hchanged : ∀ t ∈ s.tl.list, k t (s.tl.threads t) = false → (g t).suspend_count.toInt ≤ n + 1)
    (ha : a.toInt ≤ n + 1) :
    CountsBelow (n + 1) ⟨{ s.tl with
      threads := fun u => if u ∈ s.tl.list ∧ k u (s.tl.threads u) = false then g u else s.tl.threads u
      suspend_all_count := a
      debug_suspend_all_count := d }, p⟩ := by
  constructor <;> dsimp only
  · intro t ht
    split
    · next h =>
      have := hchanged t ht h.2
      omega
    · have := hb.count_le t ht
      omega
  · omega

/-- The `int` `-1` is `-1`. -/
theorem toInt_neg_one : (-1 : Int32).toInt = -1 := by decide

theorem register_ok (debug_thread : Option τ) (hs : SuspendInv s) (hb : CountsBelow n s)
    {self : τ} (hself : self ∉ s.tl.list) :
    ∃ s', (Op.register self).step debug_thread s = some s' ∧ SuspendInv s' ∧
      CountsBelow (n + 1) s' := by
  -- the new thread is counted against every pending call
  have hfilter : s.pending.filter (· ≠ self) = s.pending := by
    apply List.filter_eq_self.2
    intro a ha
    have hne : a ≠ self := fun h => hself (h ▸ hs.pending_registered a ha)
    simpa using hne
  have hinit := hs.unregistered self hself
  have hsum := hs.suspend_all_count_eq
  have hdebug := hs.debug_all_nonneg
  refine ⟨_, by simp only [Op.step, ThreadList.register, if_neg hself, Option.map_some]; rfl, ?_, ?_⟩
  · constructor <;> dsimp only
    · refine List.nodup_append.2 ⟨hs.nodup, List.nodup_singleton self, fun a ha b hb => ?_⟩
      rw [List.mem_singleton] at hb
      subst hb
      exact fun h => hself (h ▸ ha)
    · exact fun a ha => List.mem_append_left _ (hs.pending_registered a ha)
    · intro t ht
      have htself : t ≠ self := fun h => ht (h ▸ List.mem_append_right _ (List.mem_singleton_self _))
      rw [Function.update_of_ne htself]
      exact hs.unregistered t fun h => ht (List.mem_append_left _ h)
    · intro t ht
      rcases List.mem_append.1 ht with ht | ht
      · have htself : t ≠ self := fun h => hself (h ▸ ht)
        rw [Function.update_of_ne htself]
        exact hs.counts t ht
      · rw [List.mem_singleton] at ht
        subst ht
        rw [Function.update_self, hinit]
        -- the flag is set when the count is positive, and was clear
        by_cases hpos : s.tl.suspend_all_count > 0
        · rw [if_pos hpos]
          have hne : s.tl.suspend_all_count ≠ 0 := fun h => by simp [h] at hpos
          exact ⟨hdebug, by rw [hfilter]; exact hsum, by simp [hne]⟩
        · have hzero : s.tl.suspend_all_count = 0 := by
            rw [gt_iff_lt, Int32.lt_iff_toInt_lt, Int32.toInt_zero] at hpos
            rw [← Int32.toInt_inj, Int32.toInt_zero]
            omega
          rw [if_neg hpos]
          exact ⟨hdebug, by rw [hfilter]; exact hsum, by simp [hzero, Thread.init]⟩
    · exact hsum
    · exact hdebug
  · constructor <;> dsimp only
    · intro t ht
      rcases List.mem_append.1 ht with ht | ht
      · have htself : t ≠ self := fun h => hself (h ▸ ht)
        rw [Function.update_of_ne htself]
        have := hb.count_le t ht
        omega
      · -- the new thread takes the global count
        rw [List.mem_singleton] at ht
        subst ht
        rw [Function.update_self]
        have := hb.suspend_all_le
        split <;> dsimp only <;> omega
    · have := hb.suspend_all_le
      omega

theorem suspendAll_ok (debug_thread : Option τ) (hs : SuspendInv s) (hb : CountsBelow n s)
    (hn : n + 1 < 2 ^ 31) {self : τ} (hself : self ∈ s.tl.list) :
    ∃ s', (Op.suspendAll self).step debug_thread s = some s' ∧ SuspendInv s' ∧
      CountsBelow (n + 1) s' := by
  -- every count is at most `n`, so one more does not wrap
  have hbump : ∀ t ∈ s.tl.list, ((s.tl.threads t).addSuspendCount 1 false).suspend_count.toInt =
      (s.tl.threads t).suspend_count.toInt + 1 := fun t ht =>
    toInt_add_one_of_lt (by have := hb.count_le t ht; omega)
  have hall : (s.tl.suspend_all_count + 1).toInt = s.tl.suspend_all_count.toInt + 1 :=
    toInt_add_one_of_lt (by have := hb.suspend_all_le; omega)
  have hloop : ThreadList.modifySuspendCounts (fun t _ => t = self) (fun _ => 1) false s.tl.list
      s.tl.threads = some fun u => if u ∈ s.tl.list ∧ decide (u = self) = false then
        (s.tl.threads u).addSuspendCount 1 false else s.tl.threads u :=
    ThreadList.modifySuspendCounts_eq hs.nodup fun _ _ _ =>
      Thread.modifySuspendCount_eq false (.inl (by decide))
  refine ⟨_, by simp only [Op.step, ThreadList.suspendAll, hloop, Option.map_some],
    hs.of_loop (k := fun t _ => t = self) (g := fun u => (s.tl.threads u).addSuspendCount 1 false)
      (p := self :: s.pending) (a := s.tl.suspend_all_count + 1) ?_ ?_ ?_ ?_ hs.debug_all_nonneg,
    hb.of_loop (k := fun t _ => t = self) (g := fun u => (s.tl.threads u).addSuspendCount 1 false)
      (fun t ht _ => ?_) ?_⟩
  · intro a ha
    rcases List.mem_cons.1 ha with rfl | ha
    · exact hself
    · exact hs.pending_registered a ha
  · -- every other thread is suspended once more, for the new pending call
    intro t ht hsk
    have hne : self ≠ t := fun h => by simp [h] at hsk
    have := hb.count_le t ht
    refine (hs.counts t ht).add (by rw [Int32.toInt_one]; omega)
      (by simpa using (hs.counts t ht).debug_nonneg) ?_
    rw [length_filter_cons, if_neg hne]
    simp
  · intro t ht hsk
    have hteq : t = self := by simpa using hsk
    subst hteq
    exact (hs.counts t ht).of_length_eq (by rw [length_filter_cons, if_pos rfl, Nat.add_zero])
  · rw [hall, hs.suspend_all_count_eq, List.length_cons]
    push_cast
    ring
  · rw [hbump t ht]
    have := hb.count_le t ht
    omega
  · rw [hall]
    have := hb.suspend_all_le
    omega

theorem resumeAll_ok (debug_thread : Option τ) (hs : SuspendInv s) (hb : CountsBelow n s)
    {self : τ} (hself : self ∈ s.pending) :
    ∃ s', (Op.resumeAll self).step debug_thread s = some s' ∧ SuspendInv s' ∧
      CountsBelow (n + 1) s' := by
  -- every other thread counts the caller's pending call, so none is at zero
  have hpos : ∀ t ∈ s.tl.list, decide (t = self) = false → 0 < (s.tl.threads t).suspend_count.toInt := by
    intro t ht hsk
    have hne : self ≠ t := fun h => by simp [h] at hsk
    have hlen := length_filter_erase hself t
    rw [if_neg hne] at hlen
    have hc := hs.counts t ht
    have := hc.count_eq
    have := hc.debug_nonneg
    omega
  have hdrop : ∀ t ∈ s.tl.list, decide (t = self) = false →
      ((s.tl.threads t).addSuspendCount (-1) false).suspend_count.toInt =
        (s.tl.threads t).suspend_count.toInt - 1 := by
    intro t ht hsk
    have := hpos t ht hsk
    have := (s.tl.threads t).suspend_count.toInt_lt
    rw [Thread.addSuspendCount_count _ _ _ (by rw [toInt_neg_one]; omega)
      (by rw [toInt_neg_one]; omega), toInt_neg_one]
    omega
  have hpend := List.length_pos_of_mem hself
  have hall : (s.tl.suspend_all_count - 1).toInt = s.tl.suspend_all_count.toInt - 1 :=
    toInt_sub_one_of_lt (by have := hs.suspend_all_count_eq; have := hs.debug_all_nonneg; omega)
  have hloop : ThreadList.modifySuspendCounts (fun t _ => t = self) (fun _ => -1) false s.tl.list
      s.tl.threads = some fun u => if u ∈ s.tl.list ∧ decide (u = self) = false then
        (s.tl.threads u).addSuspendCount (-1) false else s.tl.threads u :=
    ThreadList.modifySuspendCounts_eq hs.nodup fun t ht hsk =>
      Thread.modifySuspendCount_eq false (.inr (hpos t ht hsk))
  refine ⟨_, by simp only [Op.step, ThreadList.resumeAll, hloop, Option.map_some],
    hs.of_loop (k := fun t _ => t = self) (g := fun u => (s.tl.threads u).addSuspendCount (-1) false)
      (p := s.pending.erase self) (a := s.tl.suspend_all_count - 1) ?_ ?_ ?_ ?_ hs.debug_all_nonneg,
    hb.of_loop (k := fun t _ => t = self) (g := fun u => (s.tl.threads u).addSuspendCount (-1) false)
      (fun t ht hsk => ?_) ?_⟩
  · exact fun a ha => hs.pending_registered a (List.mem_of_mem_erase ha)
  · intro t ht hsk
    have hne : self ≠ t := fun h => by simp [h] at hsk
    have hlen := length_filter_erase hself t
    rw [if_neg hne] at hlen
    have := (s.tl.threads t).suspend_count.toInt_lt
    refine (hs.counts t ht).add (by rw [toInt_neg_one]; omega)
      (by simpa using (hs.counts t ht).debug_nonneg) ?_
    simp only [Bool.false_eq_true, ↓reduceIte, toInt_neg_one]
    omega
  · intro t ht hsk
    have hteq : t = self := by simpa using hsk
    subst hteq
    exact (hs.counts t ht).of_length_eq (by simpa using length_filter_erase hself t)
  · have hlen := List.length_erase_of_mem hself
    rw [hall, hs.suspend_all_count_eq, hlen]
    omega
  · rw [hdrop t ht hsk]
    have := hb.count_le t ht
    omega
  · rw [hall]
    have := hb.suspend_all_le
    omega

theorem suspendAllForDebugger_ok (debug_thread : Option τ) (hs : SuspendInv s)
    (hb : CountsBelow n s) (hn : n + 1 < 2 ^ 31) (self : τ) :
    ∃ s', (Op.suspendAllForDebugger self).step debug_thread s = some s' ∧ SuspendInv s' ∧
      CountsBelow (n + 1) s' := by
  have hbump : ∀ t ∈ s.tl.list, ((s.tl.threads t).addSuspendCount 1 true).suspend_count.toInt =
      (s.tl.threads t).suspend_count.toInt + 1 := fun t ht =>
    toInt_add_one_of_lt (by have := hb.count_le t ht; omega)
  -- the global counts are at most `n` too, the debugger's below the other
  have hsum := hs.suspend_all_count_eq
  have hdebug := hs.debug_all_nonneg
  have hle := hb.suspend_all_le
  have hall : (s.tl.suspend_all_count + 1).toInt = s.tl.suspend_all_count.toInt + 1 :=
    toInt_add_one_of_lt (by omega)
  have hdall : (s.tl.debug_suspend_all_count + 1).toInt = s.tl.debug_suspend_all_count.toInt + 1 :=
    toInt_add_one_of_lt (by omega)
  have hloop : ThreadList.modifySuspendCounts (fun t _ => t = self ∨ some t = debug_thread)
      (fun _ => 1) true s.tl.list s.tl.threads =
      some fun u => if u ∈ s.tl.list ∧ decide (u = self ∨ some u = debug_thread) = false then
        (s.tl.threads u).addSuspendCount 1 true else s.tl.threads u :=
    ThreadList.modifySuspendCounts_eq hs.nodup fun _ _ _ =>
      Thread.modifySuspendCount_eq true (.inl (by decide))
  refine ⟨_, by simp only [Op.step, ThreadList.suspendAllForDebugger, hloop, Option.map_some],
    hs.of_loop (k := fun t _ => t = self ∨ some t = debug_thread)
      (g := fun u => (s.tl.threads u).addSuspendCount 1 true) (a := s.tl.suspend_all_count + 1)
      (d := s.tl.debug_suspend_all_count + 1) hs.pending_registered ?_ (fun t ht _ => hs.counts t ht)
      ?_ ?_,
    hb.of_loop (k := fun t _ => t = self ∨ some t = debug_thread)
      (g := fun u => (s.tl.threads u).addSuspendCount 1 true) (fun t ht _ => ?_) ?_⟩
  · -- the debugger's suspension of every other thread but its own
    intro t ht _
    have hd := (hs.counts t ht).debug_nonneg
    have := hb.count_le t ht
    exact (hs.counts t ht).add (by rw [Int32.toInt_one]; omega)
      (by simp only [↓reduceIte, Int32.toInt_one]; omega) (by simp)
  · rw [hall, hdall, hsum]
    ring
  · rw [hdall]
    omega
  · rw [hbump t ht]
    have := hb.count_le t ht
    omega
  · rw [hall]
    omega

theorem resume_ok (debug_thread : Option τ) (hs : SuspendInv s) (hb : CountsBelow n s)
    {thread : τ} (hdebug : 0 < (s.tl.threads thread).debug_suspend_count) :
    ∃ s', (Op.resume thread).step debug_thread s = some s' ∧ SuspendInv s' ∧
      CountsBelow (n + 1) s' := by
  rw [Int32.lt_iff_toInt_lt, Int32.toInt_zero] at hdebug
  by_cases hin : thread ∈ s.tl.list
  · -- the count covers the debugger's suspension being resumed
    have hc := hs.counts thread hin
    have hcount := hc.count_eq
    have hpos : 0 < (s.tl.threads thread).suspend_count.toInt := by omega
    have hlt := (s.tl.threads thread).suspend_count.toInt_lt
    have hdrop := (s.tl.threads thread).addSuspendCount_count (-1) true
      (by rw [toInt_neg_one]; omega) (by rw [toInt_neg_one]; omega)
    refine ⟨_, by simp only [Op.step, ThreadList.resume, hin, not_true_eq_false, ↓reduceIte,
      Thread.modifySuspendCount_eq true (.inr hpos), Option.map_some]; rfl, hs.update hin ?_,
      hb.update ?_⟩
    · exact hc.add (by rw [toInt_neg_one]; omega) (by simp only [↓reduceIte, toInt_neg_one]; omega)
        (by simp)
    · rw [hdrop, toInt_neg_one]
      have := hb.count_le thread hin
      omega
  · refine ⟨s, by simp [Op.step, ThreadList.resume, hin], hs, ?_⟩
    constructor
    · intro t ht
      have := hb.count_le t ht
      omega
    · have := hb.suspend_all_le
      omega

theorem suspendSelfForDebugger_ok (debug_thread : Option τ) (hs : SuspendInv s)
    (hb : CountsBelow n s) (hn : n + 1 < 2 ^ 31) {self : τ} (hself : self ∈ s.tl.list) :
    ∃ s', (Op.suspendSelfForDebugger self).step debug_thread s = some s' ∧ SuspendInv s' ∧
      CountsBelow (n + 1) s' := by
  have hc := hs.counts self hself
  have hnonneg := hc.count_nonneg
  have hle := hb.count_le self hself
  have hbump : ((s.tl.threads self).addSuspendCount 1 true).suspend_count.toInt =
      (s.tl.threads self).suspend_count.toInt + 1 := toInt_add_one_of_lt (by omega)
  -- one more suspension: the count is positive and the `CHECK_GT` holds
  have hcheck : ((s.tl.threads self).addSuspendCount 1 true).suspend_count > 0 := by
    rw [gt_iff_lt, Int32.lt_iff_toInt_lt, Int32.toInt_zero, hbump]
    omega
  refine ⟨_, by simp only [Op.step, ThreadList.suspendSelfForDebugger,
    Thread.modifySuspendCount_eq true (.inl (show (0 : Int) ≤ (1 : Int32).toInt by decide)), hcheck,
    ↓reduceIte, Option.map_some]; rfl, hs.update hself ?_, hb.update ?_⟩
  · exact hc.add (by rw [Int32.toInt_one]; omega)
      (by simp only [↓reduceIte, Int32.toInt_one]; have := hc.debug_nonneg; omega) (by simp)
  · rw [hbump]
    omega

/-- `UndoDebuggerSuspensions` of a registered caller: every other thread
    with debugger suspensions loses them all, and none of them dies. -/
theorem undoDebuggerSuspensions_step (debug_thread : Option τ) (hs : SuspendInv s) (self : τ) :
    (Op.undoDebuggerSuspensions self).step debug_thread s = some ⟨{ s.tl with
      threads := fun u =>
        if u ∈ s.tl.list ∧ decide (u = self ∨ (s.tl.threads u).debug_suspend_count = 0) = false then
          (s.tl.threads u).addSuspendCount (-(s.tl.threads u).debug_suspend_count) true
        else s.tl.threads u
      suspend_all_count := s.tl.suspend_all_count - s.tl.debug_suspend_all_count
      debug_suspend_all_count := 0 }, s.pending⟩ := by
  -- a thread with debugger suspensions has a positive count
  have hpos : ∀ t ∈ s.tl.list,
      decide (t = self ∨ (s.tl.threads t).debug_suspend_count = 0) = false →
      0 < (s.tl.threads t).suspend_count.toInt := by
    intro t ht hsk
    have hne : (s.tl.threads t).debug_suspend_count ≠ 0 := fun h => by simp [h] at hsk
    rw [ne_eq, ← Int32.toInt_inj, Int32.toInt_zero] at hne
    have hc := hs.counts t ht
    have := hc.count_eq
    have := hc.debug_nonneg
    omega
  have hloop := ThreadList.modifySuspendCounts_eq
    (g := fun u => (s.tl.threads u).addSuspendCount (-(s.tl.threads u).debug_suspend_count) true)
    (k := fun t th => t = self ∨ th.debug_suspend_count = 0) (d := fun th => -th.debug_suspend_count)
    hs.nodup fun t ht hsk =>
      Thread.modifySuspendCount_eq true (.inr (hpos t ht hsk))
  simp only [Op.step, ThreadList.undoDebuggerSuspensions, hloop, Option.map_some]

/-- Taking all of a registered thread's debugger suspensions away does not
    wrap: its count falls to the pending calls of others. -/
theorem count_undo {p : List τ} {t : τ} {th : Thread} (h : CountsOk p t th) :
    (-th.debug_suspend_count).toInt = -th.debug_suspend_count.toInt ∧
      (th.addSuspendCount (-th.debug_suspend_count) true).suspend_count.toInt =
        (p.filter (· ≠ t)).length := by
  have hc := h.count_eq
  have hd := h.debug_nonneg
  have hneg : (-th.debug_suspend_count).toInt = -th.debug_suspend_count.toInt :=
    toInt_neg_of_lt (by omega)
  have hlt := th.suspend_count.toInt_lt
  refine ⟨hneg, ?_⟩
  rw [th.addSuspendCount_count _ true (by rw [hneg]; omega) (by rw [hneg]; omega), hneg]
  omega

theorem undoDebuggerSuspensions_ok (debug_thread : Option τ) (hs : SuspendInv s)
    (hb : CountsBelow n s) (self : τ) :
    ∃ s', (Op.undoDebuggerSuspensions self).step debug_thread s = some s' ∧ SuspendInv s' ∧
      CountsBelow (n + 1) s' := by
  have hsum := hs.suspend_all_count_eq
  have hdebug := hs.debug_all_nonneg
  have hlt := s.tl.suspend_all_count.toInt_lt
  have hall : (s.tl.suspend_all_count - s.tl.debug_suspend_all_count).toInt =
      s.tl.suspend_all_count.toInt - s.tl.debug_suspend_all_count.toInt :=
    toInt_sub_of_range (by omega) (by omega)
  refine ⟨_, undoDebuggerSuspensions_step debug_thread hs self,
    hs.of_loop (k := fun t th => t = self ∨ th.debug_suspend_count = 0)
      (g := fun u => (s.tl.threads u).addSuspendCount (-(s.tl.threads u).debug_suspend_count) true)
      hs.pending_registered ?_ (fun t ht _ => hs.counts t ht) ?_ (le_refl _),
    hb.of_loop (k := fun t th => t = self ∨ th.debug_suspend_count = 0)
      (g := fun u => (s.tl.threads u).addSuspendCount (-(s.tl.threads u).debug_suspend_count) true)
      (fun t ht _ => ?_) ?_⟩
  · intro t ht _
    have hc := hs.counts t ht
    obtain ⟨hneg, -⟩ := count_undo hc
    have hd := hc.debug_nonneg
    have hlt := (s.tl.threads t).suspend_count.toInt_lt
    exact hc.add (by rw [hneg]; omega) (by simp only [↓reduceIte, hneg]; omega) (by simp)
  · rw [hall, hsum]
    simp
  · rw [(count_undo (hs.counts t ht)).2]
    have := (hs.counts t ht).count_eq
    have := (hs.counts t ht).debug_nonneg
    have := hb.count_le t ht
    omega
  · rw [hall]
    have := hb.suspend_all_le
    omega

/-- After `UndoDebuggerSuspensions` every other thread has no debugger
    suspension left, and is suspended once for each pending `SuspendAll`
    of another thread. -/
theorem undoDebuggerSuspensions_counts (debug_thread : Option τ) (hs : SuspendInv s) {self : τ}
    {s' : SuspendState τ} (hstep : (Op.undoDebuggerSuspensions self).step debug_thread s = some s') :
    ∀ t ∈ s'.tl.list, t ≠ self → (s'.tl.threads t).debug_suspend_count = 0 ∧
      (s'.tl.threads t).suspend_count.toInt = (s'.pending.filter (· ≠ t)).length := by
  rw [undoDebuggerSuspensions_step debug_thread hs self, Option.some_inj] at hstep
  subst hstep
  intro t ht hne
  dsimp only at ht ⊢
  have hc := hs.counts t ht
  by_cases hzero : (s.tl.threads t).debug_suspend_count = 0
  · -- skipped: it had none
    rw [if_neg fun h => by simp [hzero] at h]
    have hcount := hc.count_eq
    rw [hzero, Int32.toInt_zero] at hcount
    exact ⟨hzero, by omega⟩
  · rw [if_pos ⟨ht, by simp [hne, hzero]⟩]
    exact ⟨by simp only [Thread.addSuspendCount, ↓reduceIte, Int32.add_right_neg],
      (count_undo hc).2⟩

/-- Every call a thread may make, while the counts are below `2 ^ 31 - 1`,
    keeps the invariant, raises the bound by one at most, and does not
    die. -/
theorem step_ok (debug_thread : Option τ) (hs : SuspendInv s) (hb : CountsBelow n s)
    (hn : n + 1 < 2 ^ 31) {op : Op τ} (hop : op.Enabled s) :
    ∃ s', op.step debug_thread s = some s' ∧ SuspendInv s' ∧ CountsBelow (n + 1) s' := by
  cases op with
  | register self => exact register_ok debug_thread hs hb hop
  | suspendAll self => exact suspendAll_ok debug_thread hs hb hn hop
  | resumeAll self => exact resumeAll_ok debug_thread hs hb hop
  | suspendAllForDebugger self => exact suspendAllForDebugger_ok debug_thread hs hb hn self
  | resume thread => exact resume_ok debug_thread hs hb hop
  | suspendSelfForDebugger self => exact suspendSelfForDebugger_ok debug_thread hs hb hn hop
  | undoDebuggerSuspensions self => exact undoDebuggerSuspensions_ok debug_thread hs hb self

end Steps

/-! ### Runs -/

section Runs

variable {τ : Type} [DecidableEq τ]

/-- A run from a state of the invariant whose counts are at most `n` keeps
    the invariant, with its counts at most `n` and the run's length, while
    that stays below `2 ^ 31`. -/
theorem SuspendInv.run (debug_thread : Option τ) {s s' : SuspendState τ} {ops : List (Op τ)}
    (hrun : (threadListSystem debug_thread).Run s ops s') :
    ∀ {n : Nat}, SuspendInv s → CountsBelow n s → n + ops.length < 2 ^ 31 →
      SuspendInv s' ∧ CountsBelow (n + ops.length) s' := by
  induction hrun with
  | nil s => exact fun hs hb _ => ⟨hs, hb⟩
  | @cons s s₁ s' op ops hstep _ ih =>
    intro n hs hb hlen
    rw [List.length_cons] at hlen ⊢
    -- a step is a call the thread may make, and it returns
    change (if op.Enabled s then op.step debug_thread s else none) = some s₁ at hstep
    split at hstep
    · obtain ⟨s'', hs'', hinv, hb'⟩ := step_ok debug_thread hs hb (by omega) ‹_›
      rw [hs'', Option.some_inj] at hstep
      subst hstep
      rw [← Nat.add_assoc, Nat.add_right_comm]
      exact ih hinv hb' (by omega)
    · cases hstep

/-- After any run of fewer than `2 ^ 31 - 1` calls, every registered thread
    has `0 ≤ debug_suspend_count_ ≤ suspend_count_` and `kSuspendRequest`
    set exactly when `suspend_count_ > 0`; no call a thread may make next
    dies; and after `UndoDebuggerSuspensions` every thread but the caller
    has no debugger suspension and is suspended once for each `SuspendAll`
    of another thread not yet matched by its `ResumeAll`. -/
theorem suspend_counts_consistent (debug_thread : Option τ) {ops : List (Op τ)}
    {s : SuspendState τ} (hrun : (threadListSystem debug_thread).Run SuspendState.initial ops s)
    (hlen : ops.length < 2 ^ 31 - 1) :
    (∀ t ∈ s.tl.list, 0 ≤ (s.tl.threads t).debug_suspend_count ∧
      (s.tl.threads t).debug_suspend_count ≤ (s.tl.threads t).suspend_count ∧
      ((s.tl.threads t).suspend_request = true ↔ 0 < (s.tl.threads t).suspend_count)) ∧
    (∀ op : Op τ, op.Enabled s → op.step debug_thread s ≠ none) ∧
    ∀ (self : τ) (s' : SuspendState τ),
      (Op.undoDebuggerSuspensions self).step debug_thread s = some s' →
      ∀ t ∈ s'.tl.list, t ≠ self → (s'.tl.threads t).debug_suspend_count = 0 ∧
        (s'.tl.threads t).suspend_count.toInt = (s'.pending.filter (· ≠ t)).length := by
  obtain ⟨hinv, hb⟩ := SuspendInv.run debug_thread hrun SuspendInv.initial CountsBelow.initial
    (by omega)
  refine ⟨fun t ht => ?_, fun op hop => ?_, fun self s' hstep => ?_⟩
  · have hc := hinv.counts t ht
    have hcount := hc.count_eq
    have hd := hc.debug_nonneg
    rw [Int32.le_iff_toInt_le, Int32.le_iff_toInt_le, Int32.lt_iff_toInt_lt, Int32.toInt_zero,
      hc.request_eq, decide_eq_true_iff, ne_eq, ← Int32.toInt_inj, Int32.toInt_zero]
    omega
  · obtain ⟨s', hstep, -⟩ := step_ok debug_thread hinv hb (by omega) hop
    rw [hstep]
    exact Option.some_ne_none s'
  · exact undoDebuggerSuspensions_counts debug_thread hinv hstep

end Runs

/-- Four threads, the JDWP thread being `2`: thread `0` suspends all, the
    debugger thread `1` suspends all for the debugger, thread `3` attaches in
    the middle and is resumed, thread `0` suspends itself for the debugger,
    and thread `1` undoes the debugger's suspensions. -/
def demoCalls : List (Op Nat) :=
  [.register 0, .register 1, .register 2, .suspendAll 0, .suspendAllForDebugger 1, .register 3,
    .resume 3, .suspendSelfForDebugger 0, .undoDebuggerSuspensions 1]

/-- The state `demoCalls` leads to. -/
def demoState : SuspendState Nat :=
  (System.runFun (fun op s => if op.Enabled s then op.step (some 2) s else none)
    SuspendState.initial demoCalls).getD SuspendState.initial

theorem run_demoState : (threadListSystem (some 2)).Run SuspendState.initial demoCalls demoState := by
  obtain ⟨s, hs⟩ := Option.isSome_iff_exists.1 (show (System.runFun
    (fun op s => if op.Enabled s then op.step (some 2) s else none) SuspendState.initial
    demoCalls).isSome = true by decide)
  have hdemo : demoState = s := by
    rw [demoState, hs]
    rfl
  rw [hdemo]
  exact System.Run.of_runFun hs

theorem suspend_counts_consistent_demo :
    (threadListSystem (some 2)).Run SuspendState.initial demoCalls demoState ∧
    demoCalls.length < 2 ^ 31 - 1 ∧
    (∀ t ∈ demoState.tl.list, 0 ≤ (demoState.tl.threads t).debug_suspend_count ∧
      (demoState.tl.threads t).debug_suspend_count ≤ (demoState.tl.threads t).suspend_count ∧
      ((demoState.tl.threads t).suspend_request = true ↔ 0 < (demoState.tl.threads t).suspend_count)) ∧
    (∀ op : Op Nat, op.Enabled demoState → op.step (some 2) demoState ≠ none) ∧
    ∀ (self : Nat) (s' : SuspendState Nat),
      (Op.undoDebuggerSuspensions self).step (some 2) demoState = some s' →
      ∀ t ∈ s'.tl.list, t ≠ self → (s'.tl.threads t).debug_suspend_count = 0 ∧
        (s'.tl.threads t).suspend_count.toInt = (s'.pending.filter (· ≠ t)).length :=
  ⟨run_demoState, by decide, suspend_counts_consistent (some 2) run_demoState (by decide)⟩

/-! ### Wrapping the counts -/

/-- Threads `0` and `1` registered, with no JDWP thread, after `k` calls of
    `SuspendAllForDebugger` by thread `0`: thread `1` and the global counts
    hold `k` as an `int`. -/
def debugSuspended (k : Nat) : SuspendState Nat :=
  ⟨⟨[0, 1], Function.update (fun _ => Thread.init) 1
      ⟨Int32.ofNat k, Int32.ofNat k, Int32.ofNat k ≠ 0⟩, Int32.ofNat k, Int32.ofNat k⟩, []⟩

theorem run_registerTwo :
    (threadListSystem none).Run SuspendState.initial [.register 0, .register 1] (debugSuspended 0) := by
  let one : SuspendState Nat := ⟨⟨[0], fun _ => Thread.init, 0, 0⟩, []⟩
  have h₁ : (threadListSystem none).step (.register 0) SuspendState.initial one :=
    threadListSystem_step List.not_mem_nil (by simp [one, Op.step, ThreadList.register,
      SuspendState.initial, Thread.init])
  have h₂ : (threadListSystem none).step (.register 1) one (debugSuspended 0) :=
    threadListSystem_step (show (1 : Nat) ∉ [0] by decide) (by simp [one, Op.step,
      ThreadList.register, debugSuspended, Thread.init])
  exact .cons h₁ (.cons h₂ (.nil _))

/-- One more call of `SuspendAllForDebugger` by thread `0` adds one to each
    count, in `int`. -/
theorem debugSuspended_step (k : Nat) :
    (threadListSystem none).step (.suspendAllForDebugger 0) (debugSuspended k)
      (debugSuspended (k + 1)) :=
  threadListSystem_step (show (0 : Nat) ∈ [0, 1] by decide) (by simp [Op.step,
    ThreadList.suspendAllForDebugger, debugSuspended, ThreadList.modifySuspendCounts,
    Thread.modifySuspendCount, Thread.addSuspendCount])

theorem debugSuspended_run (k m : Nat) :
    (threadListSystem none).Run (debugSuspended m) (List.replicate k (.suspendAllForDebugger 0))
      (debugSuspended (m + k)) := by
  induction k generalizing m with
  | zero => exact .nil _
  | succ k ih =>
    rw [List.replicate_succ, show m + (k + 1) = m + 1 + k by omega]
    exact .cons (debugSuspended_step m) (ih (m + 1))

/-- `2 ^ 31` calls of `SuspendAllForDebugger` by thread `0` wrap thread
    `1`'s counts to `-2 ^ 31`: its debugger count is negative, and
    `kSuspendRequest` is set while its count is not positive. -/
theorem suspend_counts_overflow :
    ∃ s : SuspendState Nat, (threadListSystem none).Run SuspendState.initial
        ([.register 0, .register 1] ++ List.replicate (2 ^ 31) (.suspendAllForDebugger 0)) s ∧
      1 ∈ s.tl.list ∧ (s.tl.threads 1).debug_suspend_count < 0 ∧
      (s.tl.threads 1).suspend_request = true ∧ (s.tl.threads 1).suspend_count < 0 := by
  have hrun := debugSuspended_run (2 ^ 31) 0
  rw [Nat.zero_add] at hrun
  exact ⟨debugSuspended (2 ^ 31), run_registerTwo.append hrun, by decide, by decide, by decide,
    by decide⟩

end ArtRuntime
