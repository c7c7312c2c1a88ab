import Mathlib.Data.List.Nodup
import ArtRuntime.Monitor.LockWord

/-!
# Wait and Notify

Object.wait, notify and notifyAll on a fat lock, and Thread::Interrupt
(monitor.cc, thread.cc). A waiter appends itself to the monitor's wait set,
gives the monitor up whatever its recursion count, and sleeps on its own
condition variable with wait_monitor_ set. Notify dequeues waiters from the
front until it finds one whose wait_monitor_ is still set, and signals that
one; Interrupt sets interrupted_ and signals the thread if it waits. A woken
waiter makes its way back to runnable, resets wait_monitor_, takes the
monitor again, restores its count, and throws InterruptedException if it was
interrupted.

The steps are the pieces of these calls that other threads cannot interleave
with: each runs under the monitor lock or under the waiter's wait_mutex_.
A woken waiter keeps wait_monitor_ set until it is runnable again, which can
block for suspension, and a Notify in between is spent on it. If Interrupt
woke it, it then throws, and the waiter behind it sleeps on: the
notification is lost.

## Main definitions

* `WaitThread`, `WaitState`: The fields of the threads and of the monitor
  that waiting uses.
* `signal`, `notifyLocked`, `notifyWithLock`, `notifyAllWithLock`,
  `monitorWait`, `wakeUp`, `relock`, `monitorNotify`, `monitorNotifyAll`,
  `interrupt`: The code.
* `waitStep`, `waitSystem`: Threads locking, waiting and notifying.

## Theorems

* `waitInv_reach`: The wait set has no duplicates and holds only threads
  inside Wait.
* `wait_returns_owning`: A thread returning from Wait owns the monitor again,
  with the count it had, and has left the wait set.
* `monitorNotify_of_woken_head`: A Notify that finds a woken waiter at the
  front of the wait set signals nobody.
* `sleeping_of_quiet_run`: A waiter that sleeps unsignalled sleeps on until a
  notify, an interrupt of it, or a spurious wake-up or timeout.
* `notify_lost_to_interrupted_waiter`: A run in which a notification is lost.
-/

namespace ArtRuntime

open TransitionSystem

/-- Where a thread is in Monitor::WaitWithLock. -/
inductive WaitPhase
  /-- Not inside Wait. -/
  | running
  /-- Blocked in its wait_cond_'s Wait or TimedWait. -/
  | sleeping
  /-- Past the condition wait, on its way back to runnable, wait_monitor_
      still set. -/
  | woken
  /-- wait_monitor_ reset; taking the monitor back with Lock(self). -/
  | relocking
  deriving DecidableEq

/-- The exceptions these calls throw. -/
inductive ThrownException
  | illegalMonitorState (message : String)
  | interrupted
  deriving DecidableEq

/-- The fields of a Thread that waiting uses, with the locals of its Wait
    call and the exception its last call threw. -/
structure WaitThread where
  phase : WaitPhase
  interrupted_ : Bool
  /-- Whether wait_monitor_ points to the monitor. -/
  wait_monitor_ : Bool
  /-- A Signal of wait_cond_ that the thread has not woken from yet. -/
  signaled : Bool
  prev_lock_count : Int32
  was_interrupted : Bool
  thrown : Option ThrownException
  deriving DecidableEq

/-- The monitor, its wait_set_ (the list linked through wait_next_), and the
    threads. -/
structure WaitState where
  monitor : Monitor
  wait_set_ : List ThinLockId
  threads : ThinLockId → WaitThread

/-- Replace one thread's fields. -/
def WaitState.setThread (s : WaitState) (t : ThinLockId) (th : WaitThread) : WaitState :=
  { s with threads := Function.update s.threads t th }

/-- ConditionVariable::Signal on a thread's own wait_cond_: it wakes the
    thread if the thread is blocked there, and is lost otherwise. -/
def signal (threads : ThinLockId → WaitThread) (u : ThinLockId) : ThinLockId → WaitThread :=
  if (threads u).phase = .sleeping then Function.update threads u { threads u with signaled := true }
  else threads

/-- Thread::NotifyLocked: signal the thread if its wait_monitor_ is set. -/
def notifyLocked (threads : ThinLockId → WaitThread) (u : ThinLockId) :
    ThinLockId → WaitThread :=
  if (threads u).wait_monitor_ = true then signal threads u else threads

/-- Monitor::NotifyWithLock: dequeue waiters from the front until one still
    has wait_monitor_ set, and signal that one. -/
def notifyWithLock (threads : ThinLockId → WaitThread) :
    List ThinLockId → List ThinLockId × (ThinLockId → WaitThread)
  | [] => ([], threads)
  | u :: rest =>
    if (threads u).wait_monitor_ = true then (rest, signal threads u)
    else notifyWithLock threads rest

/-- Monitor::NotifyAllWithLock: dequeue every waiter and Thread::Notify it. -/
def notifyAllWithLock (threads : ThinLockId → WaitThread) :
    List ThinLockId → ThinLockId → WaitThread
  | [] => threads
  | u :: rest => notifyAllWithLock (notifyLocked threads u) rest

/-- Monitor::Wait up to the condition wait. A caller that does not own the
    monitor gets IllegalMonitorStateException. The owner appends itself to
    the wait set, saves lock_count_, clears the count and the owner, sets
    wait_monitor_ and releases the monitor; it sleeps unless it was already
    interrupted. -/
def monitorWait (self : ThinLockId) (s : WaitState) : WaitState :=
  if s.monitor.owner_ ≠ some self then
    s.setThread self { s.threads self with
      thrown := some (.illegalMonitorState "object not locked by thread before wait()") }
  else
    let th := s.threads self
    { monitor := { owner_ := none, lock_count_ := 0 }
      wait_set_ := s.wait_set_ ++ [self]
      threads := Function.update s.threads self
        { th with
          wait_monitor_ := true
          prev_lock_count := s.monitor.lock_count_
          was_interrupted := th.interrupted_
          phase := if th.interrupted_ then .woken else .sleeping } }

/-- The condition wait returns, by a signal, a timeout or spuriously: the
    waiter takes interrupted_ into was_interrupted and clears it. -/
def wakeUp (self : ThinLockId) (s : WaitState) : WaitState :=
  let th := s.threads self
  s.setThread self { th with
    phase := .woken, signaled := false, was_interrupted := th.interrupted_, interrupted_ := false }

/-- The end of WaitWithLock once Lock(self) has the monitor: restore the
    owner and the count, RemoveFromWaitSet, and throw InterruptedException if
    the wait was interrupted. -/
def relock (self : ThinLockId) (s : WaitState) : WaitState :=
  let th := s.threads self
  { monitor := { owner_ := some self, lock_count_ := th.prev_lock_count }
    wait_set_ := s.wait_set_.erase self
    threads := Function.update s.threads self
      { th with
        phase := .running
        interrupted_ := if th.was_interrupted then false else th.interrupted_
        thrown := if th.was_interrupted then some .interrupted else none } }

/-- Monitor::Notify. -/
def monitorNotify (self : ThinLockId) (s : WaitState) : WaitState :=
  if s.monitor.owner_ ≠ some self then
    s.setThread self { s.threads self with
      thrown := some (.illegalMonitorState "object not locked by thread before notify()") }
  else
    let r := notifyWithLock s.threads s.wait_set_
    { s with wait_set_ := r.1, threads := r.2 }

/-- Monitor::NotifyAll. -/
def monitorNotifyAll (self : ThinLockId) (s : WaitState) : WaitState :=
  if s.monitor.owner_ ≠ some self then
    s.setThread self { s.threads self with
      thrown := some (.illegalMonitorState "object not locked by thread before notifyAll()") }
  else
    { s with wait_set_ := [], threads := notifyAllWithLock s.threads s.wait_set_ }

/-- Thread::Interrupt on thread `u`: nothing if it is already interrupted;
    otherwise set interrupted_ and NotifyLocked. -/
def interrupt (u : ThinLockId) (s : WaitState) : WaitState :=
  if (s.threads u).interrupted_ = true then s
  else
    { s with threads :=
        notifyLocked (Function.update s.threads u { s.threads u with interrupted_ := true }) u }

/-- A step of one thread. -/
inductive WaitCall
  /-- Monitor::Lock. -/
  | lock (t : ThinLockId)
  /-- Monitor::Unlock. -/
  | unlock (t : ThinLockId)
  /-- Monitor::Wait, up to the condition wait. -/
  | wait (t : ThinLockId)
  /-- The condition wait returns after a Signal. -/
  | wake (t : ThinLockId)
  /-- The condition wait returns on a timeout, or spuriously. -/
  | wakeSpurious (t : ThinLockId)
  /-- TransitionFromSuspendedToRunnable, then wait_monitor_ reset. -/
  | resume (t : ThinLockId)
  /-- Lock(self) and the rest of WaitWithLock. -/
  | relock (t : ThinLockId)
  | notify (t : ThinLockId)
  | notifyAll (t : ThinLockId)
  /-- Thread `t` interrupts thread `u`. -/
  | interrupt (t u : ThinLockId)
  deriving DecidableEq

/-- The call `r` of thread `t` if `t` is in phase `p`, none otherwise: a
    thread inside Wait makes no other call. -/
def WaitState.when (s : WaitState) (t : ThinLockId) (p : WaitPhase) (r : Option WaitState) :
    Option WaitState :=
  if (s.threads t).phase = p then r else none

/-- One step. Monitor::Lock blocks (none) while another thread owns the
    monitor, and so does the Lock(self) that ends a Wait. -/
def waitStep : WaitCall → WaitState → Option WaitState
  | .lock t, s => s.when t .running ((s.monitor.lock t).map fun m => { s with monitor := m })
  | .unlock t, s => s.when t .running (some { s with monitor := (s.monitor.unlock t).2 })
  | .wait t, s => s.when t .running (some (monitorWait t s))
  | .wake t, s => s.when t .sleeping
      (if (s.threads t).signaled = true then some (wakeUp t s) else none)
  | .wakeSpurious t, s => s.when t .sleeping (some (wakeUp t s))
  | .resume t, s => s.when t .woken
      (some (s.setThread t { s.threads t with wait_monitor_ := false, phase := .relocking }))
  | .relock t, s => s.when t .relocking ((s.monitor.lock t).map fun _ => relock t s)
  | .notify t, s => s.when t .running (some (monitorNotify t s))
  | .notifyAll t, s => s.when t .running (some (monitorNotifyAll t s))
  | .interrupt t u, s => s.when t .running (some (interrupt u s))

/-- No thread waits yet. -/
def WaitState.IsInitial (s : WaitState) : Prop :=
  s.wait_set_ = [] ∧ ∀ t, (s.threads t).phase = .running ∧ (s.threads t).wait_monitor_ = false ∧
    (s.threads t).signaled = false

/-- The threads' calls on one fat monitor. -/
def waitSystem : System WaitState WaitCall :=
  System.ofFun WaitState.IsInitial waitStep

/-- The calls that can end a sleeping thread `b`'s wait: a notify, an
    interrupt of `b`, or a timeout or spurious wake-up of `b`. -/
def WaitCall.Wakes (b : ThinLockId) : WaitCall → Prop
  | .notify _ | .notifyAll _ => True
  | .interrupt _ u => u = b
  | .wakeSpurious u => u = b
  | _ => False

/-! ### What the notifying code leaves alone -/

/-- The fields that only a thread's own Wait call sets. -/
def KeepsWait (th th' : ThinLockId → WaitThread) : Prop :=
  ∀ v, (th' v).phase = (th v).phase ∧ (th' v).prev_lock_count = (th v).prev_lock_count

section KeepsWait

variable {th th' th'' : ThinLockId → WaitThread}

theorem KeepsWait.refl (th : ThinLockId → WaitThread) : KeepsWait th th :=
  fun _ => ⟨rfl, rfl⟩

theorem KeepsWait.trans (h : KeepsWait th th') (h' : KeepsWait th' th'') : KeepsWait th th'' :=
  fun v => ⟨(h' v).1.trans (h v).1, (h' v).2.trans (h v).2⟩

/-- Changing a thread's fields other than its phase and saved count. -/
theorem keepsWait_update {u : ThinLockId} {x : WaitThread} (hp : x.phase = (th u).phase)
    (hc : x.prev_lock_count = (th u).prev_lock_count) : KeepsWait th (Function.update th u x) := by
  intro v
  by_cases hv : v = u
  · subst hv
    rw [Function.update_self]
    exact ⟨hp, hc⟩
  · rw [Function.update_of_ne hv]
    exact ⟨rfl, rfl⟩

theorem keepsWait_signal (th : ThinLockId → WaitThread) (u : ThinLockId) :
    KeepsWait th (signal th u) := by
  unfold signal
  by_cases hs : (th u).phase = .sleeping
  · rw [if_pos hs]
    exact keepsWait_update rfl rfl
  · rw [if_neg hs]
    exact KeepsWait.refl th

theorem keepsWait_notifyLocked (th : ThinLockId → WaitThread) (u : ThinLockId) :
    KeepsWait th (notifyLocked th u) := by
  unfold notifyLocked
  by_cases hw : (th u).wait_monitor_ = true
  · rw [if_pos hw]
    exact keepsWait_signal th u
  · rw [if_neg hw]
    exact KeepsWait.refl th

theorem keepsWait_notifyWithLock (th : ThinLockId → WaitThread) (l : List ThinLockId) :
    KeepsWait th (notifyWithLock th l).2 := by
  induction l with
  | nil => exact KeepsWait.refl th
  | cons u rest ih =>
    rw [notifyWithLock]
    by_cases hw : (th u).wait_monitor_ = true
    · rw [if_pos hw]
      exact keepsWait_signal th u
    · rw [if_neg hw]
      exact ih

theorem keepsWait_notifyAllWithLock (th : ThinLockId → WaitThread) (l : List ThinLockId) :
    KeepsWait th (notifyAllWithLock th l) := by
  induction l generalizing th with
  | nil => exact KeepsWait.refl th
  | cons u rest ih => exact (keepsWait_notifyLocked th u).trans (ih _)

theorem keepsWait_interrupt (s : WaitState) (u : ThinLockId) :
    KeepsWait s.threads (interrupt u s).threads := by
  unfold interrupt
  by_cases hi : (s.threads u).interrupted_ = true
  · rw [if_pos hi]
    exact KeepsWait.refl _
  · rw [if_neg hi]
    show KeepsWait s.threads
      (notifyLocked (Function.update s.threads u { s.threads u with interrupted_ := true }) u)
    exact (keepsWait_update (u := u) (x := { s.threads u with interrupted_ := true }) rfl rfl).trans
      (keepsWait_notifyLocked _ u)

theorem interrupt_wait_set (u : ThinLockId) (s : WaitState) :
    (interrupt u s).wait_set_ = s.wait_set_ := by
  unfold interrupt
  by_cases hi : (s.threads u).interrupted_ = true
  · rw [if_pos hi]
  · rw [if_neg hi]

theorem notifyWithLock_sublist (th : ThinLockId → WaitThread) (l : List ThinLockId) :
    (notifyWithLock th l).1.Sublist l := by
  induction l with
  | nil => exact List.Sublist.slnil
  | cons u rest ih =>
    rw [notifyWithLock]
    by_cases hw : (th u).wait_monitor_ = true
    · rw [if_pos hw]
      exact List.sublist_cons_self u rest
    · rw [if_neg hw]
      exact ih.cons u

end KeepsWait

theorem when_eq_some {s s' : WaitState} {t : ThinLockId} {p : WaitPhase} {r : Option WaitState} :
    s.when t p r = some s' ↔ (s.threads t).phase = p ∧ r = some s' := by
  unfold WaitState.when
  by_cases hp : (s.threads t).phase = p
  · rw [if_pos hp]
    exact ⟨fun h => ⟨hp, h⟩, fun h => h.2⟩
  · rw [if_neg hp]
    exact ⟨fun h => absurd h.symm (Option.some_ne_none s'), fun h => absurd h.1 hp⟩

/-! ### The wait set -/

/-- The wait set lists each waiter once, and only threads inside Wait. -/
structure WaitInv (s : WaitState) : Prop where
  nodup : s.wait_set_.Nodup
  waiting : ∀ u ∈ s.wait_set_, (s.threads u).phase ≠ .running

section WaitInv

variable {s s' : WaitState}

/-- A step that leaves the phases alone and keeps a sublist of the wait set. -/
theorem WaitInv.of_sublist (hinv : WaitInv s) (hl : s'.wait_set_.Sublist s.wait_set_)
    (hk : KeepsWait s.threads s'.threads) : WaitInv s' where
  nodup := hinv.nodup.sublist hl
  waiting u hu := by
    rw [(hk u).1]
    exact hinv.waiting u (hl.subset hu)

/-- Changing one thread's fields keeps the invariant as long as the thread
    does not come back to running. -/
theorem WaitInv.setThread (hinv : WaitInv s) {t : ThinLockId} {x : WaitThread}
    (hx : x.phase = .running → (s.threads t).phase = .running) : WaitInv (s.setThread t x) where
  nodup := hinv.nodup
  waiting u hu := by
    show (Function.update s.threads t x u).phase ≠ .running
    by_cases hv : u = t
    · subst hv
      rw [Function.update_self]
      exact fun h => hinv.waiting u hu (hx h)
    · rw [Function.update_of_ne hv]
      exact hinv.waiting u hu

theorem waitInv_monitorWait (hinv : WaitInv s) {t : ThinLockId}
    (hrun : (s.threads t).phase = .running) : WaitInv (monitorWait t s) := by
  unfold monitorWait
  by_cases hown : s.monitor.owner_ ≠ some t
  · rw [if_pos hown]
    exact hinv.setThread fun _ => hrun
  · rw [if_neg hown]
    -- the caller was not waiting, so it is not in the wait set yet
    have hnew : t ∉ s.wait_set_ := fun ht => hinv.waiting t ht hrun
    refine ⟨?_, fun u hu => ?_⟩
    · rw [List.nodup_append]
      refine ⟨hinv.nodup, List.nodup_singleton t, fun x hx y hy => ?_⟩
      rw [List.mem_singleton] at hy
      rintro rfl
      exact hnew (hy ▸ hx)
    · show (Function.update s.threads t _ u).phase ≠ .running
      by_cases hut : u = t
      · subst hut
        rw [Function.update_self]
        cases (s.threads u).interrupted_ <;> simp
      · rw [Function.update_of_ne hut]
        rw [List.mem_append, List.mem_singleton] at hu
        exact hinv.waiting u (hu.resolve_right hut)

theorem waitInv_relock (hinv : WaitInv s) (t : ThinLockId) : WaitInv (relock t s) where
  nodup := hinv.nodup.erase t
  waiting u hu := by
    have hu' : u ∈ s.wait_set_.erase t := hu
    rw [hinv.nodup.mem_erase_iff] at hu'
    show (Function.update s.threads t _ u).phase ≠ .running
    rw [Function.update_of_ne hu'.1]
    exact hinv.waiting u hu'.2

theorem waitInv_monitorNotify (hinv : WaitInv s) (t : ThinLockId) :
    WaitInv (monitorNotify t s) := by
  unfold monitorNotify
  by_cases hown : s.monitor.owner_ ≠ some t
  · rw [if_pos hown]
    exact hinv.setThread id
  · rw [if_neg hown]
    exact hinv.of_sublist (notifyWithLock_sublist _ _) (keepsWait_notifyWithLock _ _)

theorem waitInv_monitorNotifyAll (hinv : WaitInv s) (t : ThinLockId) :
    WaitInv (monitorNotifyAll t s) := by
  unfold monitorNotifyAll
  by_cases hown : s.monitor.owner_ ≠ some t
  · rw [if_pos hown]
    exact hinv.setThread id
  · rw [if_neg hown]
    exact hinv.of_sublist (List.nil_sublist _) (keepsWait_notifyAllWithLock _ _)

theorem WaitInv.step (hinv : WaitInv s) {c : WaitCall} (h : waitStep c s = some s') :
    WaitInv s' := by
  cases c with
  | lock t =>
    rcases Option.map_eq_some_iff.mp (when_eq_some.mp h).2 with ⟨m, -, rfl⟩
    exact ⟨hinv.nodup, hinv.waiting⟩
  | unlock t =>
    cases (when_eq_some.mp h).2
    exact ⟨hinv.nodup, hinv.waiting⟩
  | wait t =>
    rcases when_eq_some.mp h with ⟨hrun, h⟩
    cases h
    exact waitInv_monitorWait hinv hrun
  | wake t =>
    rcases when_eq_some.mp h with ⟨hsl, h⟩
    by_cases hsig : (s.threads t).signaled = true
    · rw [if_pos hsig] at h
      cases h
      exact hinv.setThread fun h => by cases h
    · rw [if_neg hsig] at h
      cases h
  | wakeSpurious t =>
    cases (when_eq_some.mp h).2
    exact hinv.setThread fun h => by cases h
  | resume t =>
    cases (when_eq_some.mp h).2
    exact hinv.setThread fun h => by cases h
  | relock t =>
    rcases Option.map_eq_some_iff.mp (when_eq_some.mp h).2 with ⟨m, -, rfl⟩
    exact waitInv_relock hinv t
  | notify t =>
    cases (when_eq_some.mp h).2
    exact waitInv_monitorNotify hinv t
  | notifyAll t =>
    cases (when_eq_some.mp h).2
    exact waitInv_monitorNotifyAll hinv t
  | interrupt t u =>
    cases (when_eq_some.mp h).2
    exact hinv.of_sublist (by rw [interrupt_wait_set]) (keepsWait_interrupt s u)

theorem waitInv_reach (hs : waitSystem.Reach s) : WaitInv s := by
  refine System.Inductive.reach ⟨?_, ?_⟩ hs
  · intro s hinit
    refine ⟨by rw [hinit.1]; exact List.nodup_nil, fun u hu => ?_⟩
    rw [hinit.1] at hu
    cases hu
  · intro c s s' hinv hstep
    exact hinv.step hstep

end WaitInv

/-! ### Returning from Wait -/

section Return

variable {s s' : WaitState}

theorem monitorWait_threads_of_ne {t v : ThinLockId} (hv : v ≠ t) :
    (monitorWait t s).threads v = s.threads v := by
  unfold monitorWait
  by_cases hown : s.monitor.owner_ ≠ some t
  · rw [if_pos hown]
    exact Function.update_of_ne hv _ _
  · rw [if_neg hown]
    exact Function.update_of_ne hv _ _

theorem relock_threads_of_ne {t v : ThinLockId} (hv : v ≠ t) :
    (relock t s).threads v = s.threads v :=
  Function.update_of_ne hv _ _

theorem keepsWait_monitorNotify (t : ThinLockId) (s : WaitState) :
    KeepsWait s.threads (monitorNotify t s).threads := by
  unfold monitorNotify
  by_cases hown : s.monitor.owner_ ≠ some t
  · rw [if_pos hown]
    exact keepsWait_update rfl rfl
  · rw [if_neg hown]
    exact keepsWait_notifyWithLock _ _

theorem keepsWait_monitorNotifyAll (t : ThinLockId) (s : WaitState) :
    KeepsWait s.threads (monitorNotifyAll t s).threads := by
  unfold monitorNotifyAll
  by_cases hown : s.monitor.owner_ ≠ some t
  · rw [if_pos hown]
    exact keepsWait_update rfl rfl
  · rw [if_neg hown]
    exact keepsWait_notifyAllWithLock _ _

/-- Thread `t` stays inside Wait, with its saved count, when one thread's
    fields change and that thread, if it is `t`, stays inside Wait too. -/
theorem inWait_setThread {t u : ThinLockId} {x : WaitThread} (hx : x.phase ≠ .running)
    (hp : x.prev_lock_count = (s.threads u).prev_lock_count)
    (ht : (s.threads t).phase ≠ .running) :
    ((s.setThread u x).threads t).phase ≠ .running ∧
      ((s.setThread u x).threads t).prev_lock_count = (s.threads t).prev_lock_count := by
  show (Function.update s.threads u x t).phase ≠ .running ∧
    (Function.update s.threads u x t).prev_lock_count = (s.threads t).prev_lock_count
  by_cases htu : t = u
  · subst htu
    rw [Function.update_self]
    exact ⟨hx, hp⟩
  · rw [Function.update_of_ne htu]
    exact ⟨ht, rfl⟩

/-- A step other than its own return keeps a thread inside Wait, with the
    count it saved. -/
theorem inWait_step {t : ThinLockId} {c : WaitCall} (hc : c ≠ .relock t)
    (h : waitStep c s = some s') (ht : (s.threads t).phase ≠ .running) :
    (s'.threads t).phase ≠ .running ∧
      (s'.threads t).prev_lock_count = (s.threads t).prev_lock_count := by
  -- a call of a running thread is not a call of t
  have hne : ∀ u, (s.threads u).phase = .running → t ≠ u := fun u hu htu => ht (htu ▸ hu)
  have hkeep : KeepsWait s.threads s'.threads → (s'.threads t).phase ≠ .running ∧
      (s'.threads t).prev_lock_count = (s.threads t).prev_lock_count := fun hk =>
    ⟨(hk t).1 ▸ ht, (hk t).2⟩
  cases c with
  | lock u =>
    rcases Option.map_eq_some_iff.mp (when_eq_some.mp h).2 with ⟨m, -, rfl⟩
    exact ⟨ht, rfl⟩
  | unlock u =>
    cases (when_eq_some.mp h).2
    exact ⟨ht, rfl⟩
  | wait u =>
    rcases when_eq_some.mp h with ⟨hu, h⟩
    cases h
    rw [monitorWait_threads_of_ne (hne u hu)]
    exact ⟨ht, rfl⟩
  | wake u =>
    rcases when_eq_some.mp h with ⟨-, h⟩
    by_cases hsig : (s.threads u).signaled = true
    · rw [if_pos hsig] at h
      cases h
      exact inWait_setThread (fun h => by cases h) rfl ht
    · rw [if_neg hsig] at h
      cases h
  | wakeSpurious u =>
    cases (when_eq_some.mp h).2
    exact inWait_setThread (fun h => by cases h) rfl ht
  | resume u =>
    cases (when_eq_some.mp h).2
    exact inWait_setThread (fun h => by cases h) rfl ht
  | relock u =>
    have hu : t ≠ u := fun htu => hc (htu ▸ rfl)
    rcases Option.map_eq_some_iff.mp (when_eq_some.mp h).2 with ⟨m, -, rfl⟩
    rw [relock_threads_of_ne hu]
    exact ⟨ht, rfl⟩
  | notify u =>
    cases (when_eq_some.mp h).2
    exact hkeep (keepsWait_monitorNotify u s)
  | notifyAll u =>
    cases (when_eq_some.mp h).2
    exact hkeep (keepsWait_monitorNotifyAll u s)
  | interrupt u v =>
    cases (when_eq_some.mp h).2
    exact hkeep (keepsWait_interrupt s v)

theorem inWait_run {t : ThinLockId} {ls : List WaitCall} (hls : ∀ c ∈ ls, c ≠ .relock t)
    (hrun : waitSystem.Run s ls s') (ht : (s.threads t).phase ≠ .running) :
    (s'.threads t).phase ≠ .running ∧
      (s'.threads t).prev_lock_count = (s.threads t).prev_lock_count := by
  induction hrun with
  | nil => exact ⟨ht, rfl⟩
  | @cons s s₁ s' c cs hstep _ ih =>
    rcases inWait_step (hls c List.mem_cons_self) hstep ht with ⟨ht₁, hp₁⟩
    rcases ih (fun c hc => hls c (List.mem_cons_of_mem _ hc)) ht₁ with ⟨ht', hp'⟩
    exact ⟨ht', hp'.trans hp₁⟩

/-- The owner's Wait call: it is then inside Wait, having saved the count. -/
theorem monitorWait_of_owner {t : ThinLockId} (hown : s.monitor.owner_ = some t) :
    ((monitorWait t s).threads t).phase ≠ .running ∧
      ((monitorWait t s).threads t).prev_lock_count = s.monitor.lock_count_ := by
  rw [monitorWait, if_neg (fun h => h hown)]
  show (Function.update s.threads t _ t).phase ≠ .running ∧
    (Function.update s.threads t _ t).prev_lock_count = _
  rw [Function.update_self]
  refine ⟨?_, rfl⟩
  cases (s.threads t).interrupted_ <;> simp

/-- A thread that called Wait as the owner and returns from it, normally or
    by InterruptedException, owns the monitor again with the count it had,
    and is no longer in the wait set. -/
theorem wait_returns_owning {t : ThinLockId} (hs : waitSystem.Reach s)
    (hown : s.monitor.owner_ = some t) {ls : List WaitCall} (hls : ∀ c ∈ ls, c ≠ .relock t)
    (hrun : waitSystem.Run s (.wait t :: (ls ++ [.relock t])) s') :
    s'.monitor.owner_ = some t ∧ s'.monitor.lock_count_ = s.monitor.lock_count_ ∧
      t ∉ s'.wait_set_ := by
  cases hrun with
  | @cons _ s₁ _ _ _ hwait hrest =>
    -- the call: t gives the monitor up, inside Wait with its count saved
    have hs₁ := hs.step hwait
    rcases when_eq_some.mp hwait with ⟨-, hw⟩
    rw [Option.some_inj] at hw
    subst hw
    rcases System.Run.of_append hrest with ⟨s₂, hmid, hlast⟩
    -- the steps between: t stays inside Wait
    rcases inWait_run hls hmid (monitorWait_of_owner hown).1 with ⟨-, hprev⟩
    rw [(monitorWait_of_owner hown).2] at hprev
    have hinv := waitInv_reach (hmid.reach hs₁)
    -- the return: Lock(self), then the count restored and t removed
    cases hlast with
    | cons hrelock hnil =>
      cases hnil
      rcases Option.map_eq_some_iff.mp (when_eq_some.mp hrelock).2 with ⟨m, -, rfl⟩
      exact ⟨rfl, hprev, hinv.nodup.not_mem_erase⟩

end Return

/-! ### Lost notifications -/

section Lost

variable {s s' : WaitState}

/-- A Notify that finds a woken waiter at the front of the wait set takes it
    off and signals nobody: the signal is lost, since the waiter no longer
    waits on its condition variable. -/
theorem monitorNotify_of_woken_head {a c : ThinLockId} {rest : List ThinLockId}
    (hown : s.monitor.owner_ = some c) (hset : s.wait_set_ = a :: rest)
    (hw : (s.threads a).wait_monitor_ = true) (ha : (s.threads a).phase = .woken) :
    monitorNotify c s = { s with wait_set_ := rest } := by
  have hsig : signal s.threads a = s.threads := by
    rw [signal, if_neg (by rw [ha]; decide)]
  rw [monitorNotify, if_neg (fun h => h hown), hset, notifyWithLock, if_pos hw, hsig]

theorem signal_of_ne {th : ThinLockId → WaitThread} {u v : ThinLockId} (hv : v ≠ u) :
    signal th u v = th v := by
  unfold signal
  by_cases hs : (th u).phase = .sleeping
  · rw [if_pos hs, Function.update_of_ne hv]
  · rw [if_neg hs]

theorem interrupt_threads_of_ne {u v : ThinLockId} (hv : v ≠ u) :
    (interrupt u s).threads v = s.threads v := by
  unfold interrupt
  by_cases hi : (s.threads u).interrupted_ = true
  · rw [if_pos hi]
  · rw [if_neg hi]
    show notifyLocked (Function.update s.threads u _) u v = s.threads v
    unfold notifyLocked
    split
    · rw [signal_of_ne hv, Function.update_of_ne hv]
    · rw [Function.update_of_ne hv]

/-- A step that cannot wake `b` leaves a sleeping, unsignalled `b` as it is. -/
theorem sleeping_step {b : ThinLockId} {c : WaitCall} (hc : ¬ c.Wakes b)
    (h : waitStep c s = some s') (hb : (s.threads b).phase = .sleeping)
    (hsig : (s.threads b).signaled = false) : s'.threads b = s.threads b := by
  -- b sleeps, so a call that needs another phase is not b's
  have hne : ∀ u p, (s.threads u).phase = p → p ≠ .sleeping → b ≠ u := by
    intro u p hu hp hbu
    subst hbu
    exact hp (hu.symm.trans hb)
  cases c with
  | lock u =>
    rcases Option.map_eq_some_iff.mp (when_eq_some.mp h).2 with ⟨m, -, rfl⟩
    rfl
  | unlock u =>
    cases (when_eq_some.mp h).2
    rfl
  | wait u =>
    rcases when_eq_some.mp h with ⟨hu, h⟩
    cases h
    exact monitorWait_threads_of_ne (hne u _ hu (by decide))
  | wake u =>
    rcases when_eq_some.mp h with ⟨-, h⟩
    by_cases hsu : (s.threads u).signaled = true
    · rw [if_pos hsu] at h
      cases h
      have hbu : b ≠ u := fun hbu => by
        rw [← hbu, hsig] at hsu
        cases hsu
      exact Function.update_of_ne hbu _ _
    · rw [if_neg hsu] at h
      cases h
  | wakeSpurious u =>
    cases (when_eq_some.mp h).2
    exact Function.update_of_ne (fun hbu => hc hbu.symm) _ _
  | resume u =>
    rcases when_eq_some.mp h with ⟨hu, h⟩
    cases h
    exact Function.update_of_ne (hne u _ hu (by decide)) _ _
  | relock u =>
    rcases when_eq_some.mp h with ⟨hu, h⟩
    rcases Option.map_eq_some_iff.mp h with ⟨m, -, rfl⟩
    exact relock_threads_of_ne (hne u _ hu (by decide))
  | notify u => exact absurd trivial hc
  | notifyAll u => exact absurd trivial hc
  | interrupt u v =>
    cases (when_eq_some.mp h).2
    exact interrupt_threads_of_ne (fun hbv => hc hbv.symm)

/-- A waiter that sleeps unsignalled sleeps on through every run without a
    notify, an interrupt of it, or a timeout or spurious wake-up of it. -/
theorem sleeping_of_quiet_run {b : ThinLockId} {ls : List WaitCall}
    (hls : ∀ c ∈ ls, ¬ c.Wakes b) (hrun : waitSystem.Run s ls s')
    (hb : (s.threads b).phase = .sleeping) (hsig : (s.threads b).signaled = false) :
    s'.threads b = s.threads b := by
  induction hrun with
  | nil => rfl
  | @cons s s₁ s' c cs hstep _ ih =>
    have h₁ := sleeping_step (hls c List.mem_cons_self) hstep hb hsig
    rw [← h₁] at hb hsig ⊢
    exact ih (fun c hc => hls c (List.mem_cons_of_mem _ hc)) hb hsig

end Lost

/-- A fresh fat monitor: no owner, no waiter, every thread running. -/
def WaitState.fresh : WaitState :=
  ⟨⟨none, 0⟩, [], fun _ => ⟨.running, false, false, false, 0, false, none⟩⟩

theorem WaitState.isInitial_fresh : WaitState.fresh.IsInitial :=
  ⟨rfl, fun _ => ⟨rfl, rfl, rfl⟩⟩

/-- Threads `a` and `b` wait in turn; `c` interrupts `a`, which wakes; then
    `c` takes the monitor. -/
def lostNotifyCalls (a b c : ThinLockId) : List WaitCall :=
  [.lock a, .wait a, .lock b, .wait b, .interrupt c a, .wake a, .lock c]

/-- The state the lost notification needs: `a` woken at the front of the
    wait set with wait_monitor_ still set, `b` sleeping unsignalled behind
    it, `c` the owner; and `a` throws once `c`'s Notify, `c`'s Unlock and
    `a`'s return have run. -/
def lostNotifyCheck (a b c : ThinLockId) (s : WaitState) : Bool :=
  decide (s.wait_set_ = [a, b]) && decide ((s.threads a).phase = .woken) &&
    (s.threads a).wait_monitor_ && decide ((s.threads b).phase = .sleeping) &&
    !(s.threads b).signaled && decide ((s.threads c).phase = .running) &&
    decide (s.monitor.owner_ = some c) &&
    ((System.runFun waitStep s [.notify c, .unlock c, .resume a, .relock a]).map
      fun s => decide ((s.threads a).thrown = some .interrupted)).getD false

/-- From a state that passes the check, c's Notify is spent on `a`, `a`
    throws InterruptedException, and `b` sleeps on until something else wakes
    it. -/
theorem notify_lost_of_check (a b c : ThinLockId)
    (h : (System.runFun waitStep WaitState.fresh (lostNotifyCalls a b c)).map
      (lostNotifyCheck a b c) = some true) :
    ∃ s s₁, waitSystem.Reach s ∧ s.wait_set_ = [a, b] ∧ waitStep (.notify c) s = some s₁ ∧
      (∃ s₂, waitSystem.Run s₁ [.unlock c, .resume a, .relock a] s₂ ∧
        (s₂.threads a).thrown = some .interrupted) ∧
      ∀ ls s₂, waitSystem.Run s₁ ls s₂ → (∀ x ∈ ls, ¬ x.Wakes b) →
        (s₂.threads b).phase = .sleeping := by
  rcases System.exists_reach_of_runFun WaitState.isInitial_fresh h with ⟨s, hs, hp⟩
  simp only [lostNotifyCheck, Bool.and_eq_true, decide_eq_true_eq, Bool.not_eq_true'] at hp
  rcases hp with ⟨⟨⟨⟨⟨⟨⟨hset, ha⟩, hw⟩, hb⟩, hsig⟩, hc⟩, hown⟩, hthrow⟩
  have hnotify : waitStep (.notify c) s = some { s with wait_set_ := [b] } := by
    rw [waitStep, WaitState.when, if_pos hc, monitorNotify_of_woken_head hown hset hw ha]
  refine ⟨s, _, hs, hset, hnotify, ?_, fun ls s₂ hrun hls => ?_⟩
  · cases hr : System.runFun waitStep s [.notify c, .unlock c, .resume a, .relock a] with
    | none =>
      rw [hr] at hthrow
      cases hthrow
    | some s₂ =>
      rw [hr, Option.map_some, Option.getD_some, decide_eq_true_eq] at hthrow
      cases (System.Run.of_runFun hr : waitSystem.Run _ _ _) with
      | @cons _ s₁ _ _ _ hstep hrest =>
        have h₁ : waitStep (.notify c) s = some s₁ := hstep
        rw [hnotify, Option.some_inj] at h₁
        subst h₁
        exact ⟨s₂, hrest, hthrow⟩
  · rw [sleeping_of_quiet_run hls hrun hb hsig]
    exact hb

theorem notify_lost_to_interrupted_waiter :
    ∃ a b c : ThinLockId, ∃ s s₁, waitSystem.Reach s ∧ s.wait_set_ = [a, b] ∧
      waitStep (.notify c) s = some s₁ ∧
      (∃ s₂, waitSystem.Run s₁ [.unlock c, .resume a, .relock a] s₂ ∧
        (s₂.threads a).thrown = some .interrupted) ∧
      ∀ ls s₂, waitSystem.Run s₁ ls s₂ → (∀ x ∈ ls, ¬ x.Wakes b) →
        (s₂.threads b).phase = .sleeping :=
  ⟨_, _, _, notify_lost_of_check ⟨1, Nat.one_pos, by decide⟩ ⟨2, Nat.two_pos, by decide⟩
    ⟨3, by decide, by decide⟩ (by decide)⟩

end ArtRuntime
