import ArtRuntime.Core.Reach
import ArtRuntime.Core.Ring

/-!
# The GC service request ring

Processes that hand their collections to the GC service push requests into a
ring of 128 entries shared with the service, and the service pops them. Each
push and each pop is one critical section under the inter-process mutex
`mu_`:

    // GC_BUFFER_PUSH_REQUEST(ENTRY, THREAD), under mu_
    while (available_ == 0) cond_->Wait(THREAD);
    head_ = (head_ + 1) % KGCRequestBufferCapacity;
    available_ = available_ - 1; queued_ = queued_ + 1;
    ENTRY = &entries_[head_]; ENTRY->pid_ = getpid(); ENTRY->status_ = NEW;

after which each request function stores its `req_type_` and, except
ReqHeapTrim and ReqUpdateStats, its `data_addr_`; ReqRegistration also
writes a record into a second ring, `process_mappers_`, and points
`data_addr_` at it. ListenToRequests waits while `queued_ == 0` and then
ProcessGCRequest takes the entry at `tail_`, moves `tail_` on and, for a
registration, reads the record `data_addr_` points to.

`head_` starts at `127` and moves before it writes, `tail_` starts at `0`
and moves after it reads, and `available_` and `queued_` are counted apart
from both; `RingInv` says how they agree and that the entries from `tail_`
on are the requests pushed and not yet popped, in order. The records ring
has no counter of its own: its head moves at each registration and its tail
at each registration ProcessGCRequest handles, and with at least 128 records
(`MapperInv`) the pending registrations, never more than the 128 requests,
never wrap onto each other.

Both rings are windows of slots (`Ring.window`). The history of what was
pushed and popped is kept beside the buffer (`HandShake`), so that the order
of the pops can be stated over every run.

## Main definitions

* `GcServiceRequestsBuffer`: The shared buffer.
* `GCSrvcClientHandShake.gcBufferPushRequest`, `requestWith` and the request
  functions, `processGCRequest`, `listenToRequests`: The critical sections.
* `handShakeSystem`: Pushes and pops in every order, from `init`.
* `pendingRequests`, `pendingRegs`, `pendingRecords`: What is queued.
* `RingInv`, `MapperInv`: What every run keeps.

## Theorems

* `RingInv.push`, `RingInv.pop`: A push adds its request at the end, a pop
  takes the first.
* `MapperInv.push_other`, `MapperInv.push_reg`, `MapperInv.pop`: The same
  for the registration records.
* `handShake_ring_fifo`: In every reachable state the counters agree, the
  requests are popped in push order with what each push stored, no push
  writes a queued entry, and with at least 128 records no registration
  overwrites the record of one not yet popped.
-/

namespace ArtRuntime

namespace Gc

open TransitionSystem Ring

/-! ### The model -/

/-- GC_SERVICE_BUFFER_REQ_CAP, `KGCRequestBufferCapacity`. -/
def kGCRequestBufferCapacity : Nat := 128

/-- GC_SERVICE_TASK, the types a request can have. -/
inductive GcServiceTask
  | nop | reg | conc | explicit | gcAlloc | trim | stats
  deriving DecidableEq

/-- GC_SERVICE_REQ_STATUS. -/
inductive GcServiceReqStatus
  | none | new | started | complete
  deriving DecidableEq

/-- GCServiceReq, an entry of the request ring. -/
structure GcServiceReq where
  pid : Int
  req_type : GcServiceTask
  status : GcServiceReqStatus
  data_addr : Nat

/-- The fields of a FileMapperParameters record that ReqRegistration sets
    from its arguments. -/
structure FileMapperParameters where
  process_id : Int
  space_index : Int
  shared_space_addr : Nat

/-- GCServiceRequestsBuffer: the two rings and their indices and counters.
    A `data_addr_` that points into `process_mappers_` is the index of the
    record. -/
structure GcServiceRequestsBuffer where
  entries : Nat → GcServiceReq
  process_mappers : Nat → FileMapperParameters
  head : Nat
  tail : Nat
  queued : Nat
  available : Nat
  mapper_head : Nat
  mapper_tail : Nat

namespace GCSrvcClientHandShake

/-- GCSrvcClientHandShake::Init, with `m` records (`KProcessMapperCapacity`):
    every entry and record cleared. -/
def init (m : Nat) : GcServiceRequestsBuffer where
  entries _ := ⟨0, .nop, .none, 0⟩
  process_mappers _ := ⟨0, 0, 0⟩
  head := kGCRequestBufferCapacity - 1
  tail := 0
  queued := 0
  available := kGCRequestBufferCapacity
  mapper_head := m - 1
  mapper_tail := 0

/-- GC_BUFFER_PUSH_REQUEST, once the wait for `available_ != 0` is over:
    the buffer and the index of the entry it took; `none` while the push
    waits. -/
def gcBufferPushRequest (b : GcServiceRequestsBuffer) (pid : Int) :
    Option (GcServiceRequestsBuffer × Nat) :=
  if b.available = 0 then none
  else
    let head := (b.head + 1) % kGCRequestBufferCapacity
    let entry := b.entries head
    some ({ b with
      head, available := b.available - 1, queued := b.queued + 1,
      entries := Function.update b.entries head { entry with pid, status := .new } }, head)

/-- The request functions other than ReqRegistration: push, then store the
    type and, where there is one, the argument as `data_addr_`. -/
def requestWith (b : GcServiceRequestsBuffer) (pid : Int) (req_type : GcServiceTask)
    (data_addr : Option Nat) : Option GcServiceRequestsBuffer := do
  let (b, index) ← gcBufferPushRequest b pid
  let entry := b.entries index
  let entry := { entry with req_type, data_addr := data_addr.getD entry.data_addr }
  pure { b with entries := Function.update b.entries index entry }

/-- ReqConcCollection(args). -/
def reqConcCollection (b : GcServiceRequestsBuffer) (pid : Int) (args : Nat) :
    Option GcServiceRequestsBuffer :=
  requestWith b pid .conc (some args)

/-- ReqAllocationGC(args). -/
def reqAllocationGC (b : GcServiceRequestsBuffer) (pid : Int) (args : Nat) :
    Option GcServiceRequestsBuffer :=
  requestWith b pid .gcAlloc (some args)

/-- ReqExplicitCollection(args). -/
def reqExplicitCollection (b : GcServiceRequestsBuffer) (pid : Int) (args : Nat) :
    Option GcServiceRequestsBuffer :=
  requestWith b pid .explicit (some args)

/-- ReqHeapTrim(): no `data_addr_`. -/
def reqHeapTrim (b : GcServiceRequestsBuffer) (pid : Int) : Option GcServiceRequestsBuffer :=
  requestWith b pid .trim none

/-- ReqUpdateStats(): no `data_addr_`. -/
def reqUpdateStats (b : GcServiceRequestsBuffer) (pid : Int) : Option GcServiceRequestsBuffer :=
  requestWith b pid .stats none

/-- ReqRegistration(params), for the space `params` at `space_addr` with
    index `space_index`: push, move `mapper_head_` on, fill the record there
    and point `data_addr_` at it. -/
def reqRegistration (m : Nat) (b : GcServiceRequestsBuffer) (pid space_index : Int)
    (space_addr : Nat) : Option GcServiceRequestsBuffer := do
  let (b, index) ← gcBufferPushRequest b pid
  let mapper_head := (b.mapper_head + 1) % m
  let record : FileMapperParameters := ⟨pid, space_index, space_addr⟩
  let entry := b.entries index
  pure { b with
    mapper_head,
    process_mappers := Function.update b.process_mappers mapper_head record,
    entries := Function.update b.entries index { entry with req_type := .reg, data_addr := mapper_head } }

/-- ProcessGCRequest: the entry at `tail_` as it read it and, for a
    registration, the record its `data_addr_` points to; and the buffer.
    The status it then sets is the one it sets when the service daemon
    exists. -/
def processGCRequest (m : Nat) (b : GcServiceRequestsBuffer) :
    (GcServiceReq × Option FileMapperParameters) × GcServiceRequestsBuffer :=
  let index := b.tail
  let entry := b.entries index
  let status := if entry.status = .new then GcServiceReqStatus.started else entry.status
  let b := { b with
    entries := Function.update b.entries index { entry with status },
    tail := (b.tail + 1) % kGCRequestBufferCapacity,
    available := b.available + 1, queued := b.queued - 1 }
  match entry.req_type with
  | .reg =>
    let record := b.process_mappers entry.data_addr
    ((entry, some record), { b with
      mapper_tail := (b.mapper_tail + 1) % m,
      entries := Function.update b.entries index { entry with status := .none } })
  | .stats =>
    ((entry, none), { b with entries := Function.update b.entries index { entry with status := .none } })
  | _ =>
    ((entry, none), { b with entries := Function.update b.entries index { entry with status := .started } })

/-- ListenToRequests, once the wait for `queued_ != 0` is over; `none`
    while it waits. -/
def listenToRequests (m : Nat) (b : GcServiceRequestsBuffer) :
    Option ((GcServiceReq × Option FileMapperParameters) × GcServiceRequestsBuffer) :=
  if b.queued = 0 then none else some (processGCRequest m b)

end GCSrvcClientHandShake

open GCSrvcClientHandShake

/-- What a request leaves in its entry for the service: who pushed it, its
    type and its `data_addr_`. -/
structure StoredRequest where
  pid : Int
  req_type : GcServiceTask
  data_addr : Nat
  deriving DecidableEq

/-- The request an entry holds. -/
def GcServiceReq.stored (e : GcServiceReq) : StoredRequest := ⟨e.pid, e.req_type, e.data_addr⟩

/-- A critical section: one of the request functions, with the process
    making it, or the service's ListenToRequests. -/
inductive HandShakeOp
  | reqConcCollection (pid : Int) (args : Nat)
  | reqAllocationGC (pid : Int) (args : Nat)
  | reqExplicitCollection (pid : Int) (args : Nat)
  | reqHeapTrim (pid : Int)
  | reqUpdateStats (pid : Int)
  | reqRegistration (pid space_index : Int) (space_addr : Nat)
  | listenToRequests

/-- What the request function `op` asks to be stored: its process, its type
    and, where it has one, its argument. -/
def HandShakeOp.Stores : HandShakeOp → StoredRequest → Prop
  | .reqConcCollection pid args, r => r = ⟨pid, .conc, args⟩
  | .reqAllocationGC pid args, r => r = ⟨pid, .gcAlloc, args⟩
  | .reqExplicitCollection pid args, r => r = ⟨pid, .explicit, args⟩
  | .reqHeapTrim pid, r => r.pid = pid ∧ r.req_type = .trim
  | .reqUpdateStats pid, r => r.pid = pid ∧ r.req_type = .stats
  | .reqRegistration pid _ _, r => r.pid = pid ∧ r.req_type = .reg
  | .listenToRequests, _ => False

/-- The buffer, with the history of the requests pushed and popped and of
    the records registrations wrote and ProcessGCRequest read, in order. -/
structure HandShake where
  buffer : GcServiceRequestsBuffer
  pushed : List StoredRequest
  popped : List StoredRequest
  registered : List FileMapperParameters
  processed : List FileMapperParameters

/-- A push, and the request it left at the new `head_`. -/
def HandShake.afterPush (h : HandShake) (b : GcServiceRequestsBuffer) : HandShake :=
  { h with buffer := b, pushed := h.pushed ++ [(b.entries b.head).stored] }

/-- One critical section. -/
def handShakeStep (m : Nat) : HandShakeOp → HandShake → Option HandShake
  | .reqConcCollection pid args, h => (reqConcCollection h.buffer pid args).map h.afterPush
  | .reqAllocationGC pid args, h => (reqAllocationGC h.buffer pid args).map h.afterPush
  | .reqExplicitCollection pid args, h => (reqExplicitCollection h.buffer pid args).map h.afterPush
  | .reqHeapTrim pid, h => (reqHeapTrim h.buffer pid).map h.afterPush
  | .reqUpdateStats pid, h => (reqUpdateStats h.buffer pid).map h.afterPush
  | .reqRegistration pid space_index space_addr, h =>
    (reqRegistration m h.buffer pid space_index space_addr).map fun b =>
      { h.afterPush b with registered := h.registered ++ [b.process_mappers b.mapper_head] }
  | .listenToRequests, h =>
    (listenToRequests m h.buffer).map fun ((entry, record), b) =>
      { h with buffer := b, popped := h.popped ++ [entry.stored],
               processed := h.processed ++ record.toList }

/-- The critical sections of every process and of the service, interleaved
    in every order, from the buffer as Init leaves it with no history. -/
def handShakeSystem (m : Nat) : System HandShake HandShakeOp :=
  System.ofFun (fun h => h = ⟨init m, [], [], [], []⟩) (handShakeStep m)

/-- The requests queued: the `queued_` entries from `tail_` on. -/
def pendingRequests (b : GcServiceRequestsBuffer) : List StoredRequest :=
  window (fun i => (b.entries i).stored) 128 b.tail b.queued

/-- The queued registrations. -/
def pendingRegs (b : GcServiceRequestsBuffer) : List StoredRequest :=
  (pendingRequests b).filter fun r => r.req_type = .reg

/-- The records the queued registrations point to. -/
def pendingRecords (b : GcServiceRequestsBuffer) : List FileMapperParameters :=
  (pendingRegs b).map fun r => b.process_mappers r.data_addr

/-! ### The critical sections -/

section Steps

variable {b b' : GcServiceRequestsBuffer} {pid : Int}

/-- A push takes the entry after `head_` when `available_` is not 0. -/
theorem gcBufferPushRequest_eq_some {index : Nat} (h : gcBufferPushRequest b pid = some (b', index)) :
    b.available ≠ 0 ∧ index = (b.head + 1) % 128 ∧
      b' = { b with
        head := index, available := b.available - 1, queued := b.queued + 1,
        entries := Function.update b.entries index { b.entries index with pid, status := .new } } := by
  unfold gcBufferPushRequest at h
  split at h
  · cases h
  · next havail =>
    rw [Option.some_inj, Prod.mk.injEq] at h
    obtain ⟨rfl, rfl⟩ := h
    exact ⟨havail, rfl, rfl⟩

/-- What a push does to the rings, whichever request it is: it takes the
    entry after `head_`, counts it, and writes no other entry; `tail_` stays. -/
structure Pushes (b b' : GcServiceRequestsBuffer) : Prop where
  available_ne : b.available ≠ 0
  head_eq : b'.head = (b.head + 1) % 128
  tail_eq : b'.tail = b.tail
  queued_eq : b'.queued = b.queued + 1
  available_eq : b'.available = b.available - 1
  entries_eq : ∀ i, i ≠ b'.head → b'.entries i = b.entries i

/-- The request functions other than ReqRegistration push, store the
    caller's process, type and argument in the new entry, and leave the
    records alone. -/
theorem requestWith_eq_some {req_type : GcServiceTask} {data_addr : Option Nat}
    (h : requestWith b pid req_type data_addr = some b') :
    Pushes b b' ∧ b'.entries b'.head = { b.entries b'.head with
        pid, req_type, status := .new, data_addr := data_addr.getD (b.entries b'.head).data_addr } ∧
      b'.process_mappers = b.process_mappers ∧ b'.mapper_head = b.mapper_head ∧
      b'.mapper_tail = b.mapper_tail := by
  unfold requestWith at h
  cases hp : gcBufferPushRequest b pid with
  | none => rw [hp] at h; cases h
  | some p =>
    obtain ⟨b₁, index⟩ := p
    obtain ⟨havail, hindex, rfl⟩ := gcBufferPushRequest_eq_some hp
    rw [hp] at h
    cases h
    refine ⟨⟨havail, hindex, rfl, rfl, rfl, fun i hi => ?_⟩, ?_, rfl, rfl, rfl⟩
    · dsimp only at hi ⊢
      rw [Function.update_of_ne hi, Function.update_of_ne hi]
    · dsimp only
      rw [Function.update_self, Function.update_self]

/-- ReqRegistration pushes, points the new entry at the record after
    `mapper_head_`, and writes the caller's record there and no other. -/
theorem reqRegistration_eq_some {m : Nat} {space_index : Int} {space_addr : Nat}
    (h : reqRegistration m b pid space_index space_addr = some b') :
    Pushes b b' ∧ b'.mapper_head = (b.mapper_head + 1) % m ∧ b'.mapper_tail = b.mapper_tail ∧
      (b'.entries b'.head).stored = ⟨pid, .reg, b'.mapper_head⟩ ∧
      b'.process_mappers = Function.update b.process_mappers b'.mapper_head ⟨pid, space_index, space_addr⟩ := by
  unfold reqRegistration at h
  cases hp : gcBufferPushRequest b pid with
  | none => rw [hp] at h; cases h
  | some p =>
    obtain ⟨b₁, index⟩ := p
    obtain ⟨havail, hindex, rfl⟩ := gcBufferPushRequest_eq_some hp
    rw [hp] at h
    cases h
    refine ⟨⟨havail, hindex, rfl, rfl, rfl, fun i hi => ?_⟩, rfl, rfl, ?_, rfl⟩
    · dsimp only at hi ⊢
      rw [Function.update_of_ne hi, Function.update_of_ne hi]
    · dsimp only
      rw [Function.update_self, Function.update_self]
      rfl

/-- What a pop does: it reads the entry at `tail_`, moves `tail_` on,
    uncounts it, and writes no entry but that one. For a registration it
    reads the record the entry points to and moves `mapper_tail_` on. -/
theorem listenToRequests_eq_some {m : Nat} {entry : GcServiceReq} {record : Option FileMapperParameters}
    (h : listenToRequests m b = some ((entry, record), b')) :
    b.queued ≠ 0 ∧ entry = b.entries b.tail ∧ b'.tail = (b.tail + 1) % 128 ∧ b'.head = b.head ∧
      b'.queued = b.queued - 1 ∧ b'.available = b.available + 1 ∧
      (∀ i, i ≠ b.tail → b'.entries i = b.entries i) ∧
      b'.process_mappers = b.process_mappers ∧ b'.mapper_head = b.mapper_head ∧
      (entry.req_type = .reg → record = some (b.process_mappers entry.data_addr) ∧
        b'.mapper_tail = (b.mapper_tail + 1) % m) ∧
      (entry.req_type ≠ .reg → record = none ∧ b'.mapper_tail = b.mapper_tail) := by
  unfold listenToRequests at h
  split at h
  · cases h
  · next hq =>
    rw [Option.some_inj] at h
    unfold processGCRequest at h
    dsimp only at h
    -- the three endings of ProcessGCRequest differ only in the status and the records
    have hupd : ∀ (e e' : GcServiceReq) i, i ≠ b.tail →
        Function.update (Function.update b.entries b.tail e) b.tail e' i = b.entries i := fun e e' i hi => by
      rw [Function.update_of_ne hi, Function.update_of_ne hi]
    cases ht : (b.entries b.tail).req_type with
    | reg =>
      rw [ht] at h
      cases h
      exact ⟨hq, rfl, rfl, rfl, rfl, rfl, hupd _ _, rfl, rfl, fun _ => ⟨rfl, rfl⟩, fun hne => absurd ht hne⟩
    | stats =>
      rw [ht] at h
      cases h
      exact ⟨hq, rfl, rfl, rfl, rfl, rfl, hupd _ _, rfl, rfl, fun h : (b.entries b.tail).req_type = .reg => (nomatch ht.symm.trans h),
        fun _ => ⟨rfl, rfl⟩⟩
    | nop | conc | explicit | gcAlloc | trim =>
      rw [ht] at h
      cases h
      exact ⟨hq, rfl, rfl, rfl, rfl, rfl, hupd _ _, rfl, rfl, fun h : (b.entries b.tail).req_type = .reg => (nomatch ht.symm.trans h),
        fun _ => ⟨rfl, rfl⟩⟩

end Steps

/-! ### The request ring -/

/-- What every run keeps of the request ring: `available_` and `queued_`
    share the 128 entries, `head_` is the entry before the one after the
    queue, and the queued entries are the requests pushed and not popped,
    in order. -/
structure RingInv (h : HandShake) : Prop where
  sum : h.buffer.available + h.buffer.queued = 128
  tail_lt : h.buffer.tail < 128
  head_lt : h.buffer.head < 128
  head_eq : (h.buffer.head + 1) % 128 = (h.buffer.tail + h.buffer.queued) % 128
  fifo : h.popped ++ pendingRequests h.buffer = h.pushed

namespace RingInv

variable {h : HandShake} {b' : GcServiceRequestsBuffer}

theorem init (m : Nat) : RingInv ⟨init m, [], [], [], []⟩ :=
  ⟨rfl, Nat.zero_lt_succ _, Nat.lt_succ_self _,
    by show (kGCRequestBufferCapacity - 1 + 1) % 128 = (0 + 0) % 128; rfl, rfl⟩

/-- A push adds the request it leaves at the new `head_` at the end of the
    queue. -/
theorem push (hinv : RingInv h) (hp : Pushes h.buffer b') :
    RingInv (h.afterPush b') ∧ pendingRequests b' = pendingRequests h.buffer ++ [(b'.entries b'.head).stored] := by
  have hroom : h.buffer.queued < 128 := by
    have := hinv.sum
    have := hp.available_ne
    omega
  -- the new `head_` is the slot after the queue
  have hslot : b'.head = (h.buffer.tail + h.buffer.queued) % 128 := by rw [hp.head_eq, hinv.head_eq]
  have hwin : pendingRequests b' = pendingRequests h.buffer ++ [(b'.entries b'.head).stored] := by
    unfold pendingRequests
    rw [hp.queued_eq, hp.tail_eq, window_push hroom fun i hi => by rw [hp.entries_eq i (hslot ▸ hi)], hslot]
  refine ⟨⟨?_, ?_, ?_, ?_, ?_⟩, hwin⟩
  · show b'.available + b'.queued = 128
    rw [hp.available_eq, hp.queued_eq]
    have := hinv.sum
    omega
  · show b'.tail < 128
    rw [hp.tail_eq]
    exact hinv.tail_lt
  · show b'.head < 128
    rw [hp.head_eq]
    exact Nat.mod_lt _ (by decide)
  · show (b'.head + 1) % 128 = (b'.tail + b'.queued) % 128
    rw [hslot, hp.tail_eq, hp.queued_eq]
    omega
  · show h.popped ++ pendingRequests b' = h.pushed ++ [(b'.entries b'.head).stored]
    rw [hwin, ← List.append_assoc, hinv.fifo]

/-- The record log is no part of the ring. -/
theorem with_registered (hinv : RingInv h) (registered : List FileMapperParameters) :
    RingInv { h with registered } :=
  ⟨hinv.sum, hinv.tail_lt, hinv.head_lt, hinv.head_eq, hinv.fifo⟩

/-- A pop reads the first queued request, and the queue it leaves is the
    rest. -/
theorem pop {m : Nat} (hinv : RingInv h) {entry : GcServiceReq} {record : Option FileMapperParameters}
    (hl : listenToRequests m h.buffer = some ((entry, record), b')) :
    pendingRequests h.buffer = entry.stored :: pendingRequests b' ∧
      RingInv { h with buffer := b', popped := h.popped ++ [entry.stored],
                       processed := h.processed ++ record.toList } := by
  obtain ⟨hq, rfl, htail, hhead, hqueued, havail, hentries, -⟩ := listenToRequests_eq_some hl
  obtain ⟨n, hn⟩ : ∃ n, h.buffer.queued = n + 1 := ⟨h.buffer.queued - 1, by omega⟩
  have hroom : n < 128 := by
    have := hinv.sum
    omega
  -- the entry it frees is not in the queue it leaves
  have hwin : pendingRequests h.buffer = (h.buffer.entries h.buffer.tail).stored :: pendingRequests b' := by
    unfold pendingRequests
    rw [hn, window_pop, Nat.mod_eq_of_lt hinv.tail_lt, htail, hqueued, hn, Nat.add_sub_cancel]
    congr 1
    refine (window_congr fun k hk => ?_).symm
    have hne : ((h.buffer.tail + 1) % 128 + k) % 128 ≠ h.buffer.tail % 128 := slot_ne_of_pop hroom hk
    rw [Nat.mod_eq_of_lt hinv.tail_lt] at hne
    rw [hentries _ hne]
  refine ⟨hwin, ⟨?_, ?_, ?_, ?_, ?_⟩⟩
  · show b'.available + b'.queued = 128
    rw [havail, hqueued]
    have := hinv.sum
    omega
  · show b'.tail < 128
    rw [htail]
    exact Nat.mod_lt _ (by decide)
  · show b'.head < 128
    rw [hhead]
    exact hinv.head_lt
  · show (b'.head + 1) % 128 = (b'.tail + b'.queued) % 128
    rw [hhead, htail, hqueued, hinv.head_eq]
    omega
  · show (h.popped ++ [(h.buffer.entries h.buffer.tail).stored]) ++ pendingRequests b' = h.pushed
    rw [List.append_assoc, List.singleton_append, ← hwin, hinv.fifo]

end RingInv

/-! ### The records ring -/

/-- What every run keeps of the records, given at least 128 of them: the
    queued registrations point, in order, at the records from
    `mapper_tail_` on, `mapper_head_` is the last of them, and these records
    are the ones the registrations wrote and ProcessGCRequest has not read. -/
structure MapperInv (m : Nat) (h : HandShake) : Prop where
  tail_lt : h.buffer.mapper_tail < m
  head_lt : h.buffer.mapper_head < m
  head_eq : (h.buffer.mapper_head + 1) % m = (h.buffer.mapper_tail + (pendingRegs h.buffer).length) % m
  indices : (pendingRegs h.buffer).map (·.data_addr) = window id m h.buffer.mapper_tail (pendingRegs h.buffer).length
  records : h.processed ++ window h.buffer.process_mappers m h.buffer.mapper_tail (pendingRegs h.buffer).length =
    h.registered

namespace MapperInv

variable {m : Nat} {h : HandShake} {b' : GcServiceRequestsBuffer}

theorem init (hm : 0 < m) : MapperInv m ⟨GCSrvcClientHandShake.init m, [], [], [], []⟩ where
  tail_lt := hm
  head_lt := by show m - 1 < m; omega
  head_eq := by
    show (m - 1 + 1) % m = (0 + 0) % m
    rw [Nat.sub_add_cancel hm, Nat.mod_self, Nat.add_zero, Nat.zero_mod]
  indices := rfl
  records := rfl

/-- The queued registrations point at the records the invariant lists. -/
theorem pendingRecords_eq (hinv : MapperInv m h) :
    pendingRecords h.buffer = window h.buffer.process_mappers m h.buffer.mapper_tail (pendingRegs h.buffer).length := by
  have hmap : pendingRecords h.buffer = ((pendingRegs h.buffer).map (·.data_addr)).map h.buffer.process_mappers := by
    rw [pendingRecords, List.map_map]
    rfl
  rw [hmap, hinv.indices, map_window]
  rfl

/-- A push that is not a registration leaves the registrations and the
    records as they were. -/
theorem push_other (hring : RingInv h) (hinv : MapperInv m h) (hp : Pushes h.buffer b')
    (htype : (b'.entries b'.head).stored.req_type ≠ .reg)
    (hmap : b'.process_mappers = h.buffer.process_mappers ∧ b'.mapper_head = h.buffer.mapper_head ∧
      b'.mapper_tail = h.buffer.mapper_tail) :
    MapperInv m (h.afterPush b') := by
  have hregs : pendingRegs b' = pendingRegs h.buffer := by
    unfold pendingRegs
    rw [(hring.push hp).2, List.filter_append, List.filter_singleton, decide_eq_false htype,
      cond_false, List.append_nil]
  obtain ⟨hpm, hmh, hmt⟩ := hmap
  refine ⟨?_, ?_, ?_, ?_, ?_⟩ <;> dsimp only [HandShake.afterPush]
  · rw [hmt]
    exact hinv.tail_lt
  · rw [hmh]
    exact hinv.head_lt
  · rw [hmh, hmt, hregs]
    exact hinv.head_eq
  · rw [hmt, hregs]
    exact hinv.indices
  · rw [hmt, hregs, hpm]
    exact hinv.records

/-- A registration, with room in the request ring, adds its record after the
    last queued one, which none of the queued registrations points at. -/
theorem push_reg (hm : 128 ≤ m) (hring : RingInv h) (hinv : MapperInv m h) (hp : Pushes h.buffer b')
    {record : FileMapperParameters}
    (hmh : b'.mapper_head = (h.buffer.mapper_head + 1) % m) (hmt : b'.mapper_tail = h.buffer.mapper_tail)
    (htype : (b'.entries b'.head).stored.req_type = .reg)
    (hdata : (b'.entries b'.head).stored.data_addr = b'.mapper_head)
    (hpm : b'.process_mappers = Function.update h.buffer.process_mappers b'.mapper_head record) :
    MapperInv m { h.afterPush b' with registered := h.registered ++ [b'.process_mappers b'.mapper_head] } := by
  set n := (pendingRegs h.buffer).length with hn
  have hroom : n < m := by
    have hle : n ≤ h.buffer.queued := by
      calc n ≤ (pendingRequests h.buffer).length := List.length_filter_le _ _
        _ = h.buffer.queued := length_window _ _ _ _
    have := hring.sum
    have := hp.available_ne
    omega
  -- the record slot after the queued ones
  have hslot : b'.mapper_head = (h.buffer.mapper_tail + n) % m := by rw [hmh, hinv.head_eq]
  have hregs : pendingRegs b' = pendingRegs h.buffer ++ [(b'.entries b'.head).stored] := by
    unfold pendingRegs
    rw [(hring.push hp).2, List.filter_append, List.filter_singleton, htype]
    rfl
  have hlen : (pendingRegs b').length = n + 1 := by rw [hregs, List.length_append, List.length_singleton]
  refine ⟨?_, ?_, ?_, ?_, ?_⟩ <;> dsimp only [HandShake.afterPush]
  · rw [hmt]
    exact hinv.tail_lt
  · rw [hmh]
    exact Nat.mod_lt _ (by omega)
  · rw [hlen, hmt, hslot, Nat.mod_add_mod, Nat.add_assoc]
  · rw [hlen, hmt, hregs, List.map_append, hinv.indices, window, List.map_singleton, hdata, hslot]
    rfl
  · rw [hlen, hmt, window_push hroom fun i hi => by rw [hpm, Function.update_of_ne (hslot ▸ hi)],
      ← hslot, ← List.append_assoc, hinv.records]

/-- A pop of a registration reads the first queued record and moves
    `mapper_tail_` past it; a pop of another request leaves the records. -/
theorem pop (hring : RingInv h) (hinv : MapperInv m h) {entry : GcServiceReq}
    {record : Option FileMapperParameters}
    (hl : listenToRequests m h.buffer = some ((entry, record), b')) :
    MapperInv m { h with buffer := b', popped := h.popped ++ [entry.stored],
                         processed := h.processed ++ record.toList } := by
  obtain ⟨-, -, -, -, -, -, -, hpm, hmh, hreg, hother⟩ := listenToRequests_eq_some hl
  have hwin := (hring.pop hl).1
  by_cases htype : entry.req_type = .reg
  · obtain ⟨hrec, hmt⟩ := hreg htype
    have hregs : pendingRegs h.buffer = entry.stored :: pendingRegs b' := by
      unfold pendingRegs
      rw [hwin, List.filter_cons_of_pos (p := fun r : StoredRequest => decide (r.req_type = .reg)) (decide_eq_true htype)]
    set n := (pendingRegs b').length with hn
    have hlen : (pendingRegs h.buffer).length = n + 1 := by rw [hregs, List.length_cons]
    -- the first queued registration points at the record at `mapper_tail_`
    have hidx := hinv.indices
    rw [hlen, window_pop, hregs, List.map_cons, List.cons.injEq] at hidx
    have hfirst : entry.data_addr = h.buffer.mapper_tail := by
      rw [show entry.data_addr = entry.stored.data_addr from rfl, hidx.1, id, Nat.mod_eq_of_lt hinv.tail_lt]
    refine ⟨?_, ?_, ?_, ?_, ?_⟩ <;> dsimp only
    · rw [hmt]
      exact Nat.mod_lt _ (by have := hinv.tail_lt; omega)
    · rw [hmh]
      exact hinv.head_lt
    · rw [hmh, hmt, hinv.head_eq, hlen, LinearProbe.succ_mod_add_mod]
    · rw [hmt]
      exact hidx.2
    · have hrecs := hinv.records
      rw [hlen, window_pop, Nat.mod_eq_of_lt hinv.tail_lt] at hrecs
      rw [hmt, hpm, hrec, hfirst, Option.toList_some, List.append_assoc, List.singleton_append, hrecs]
  · obtain ⟨hrec, hmt⟩ := hother htype
    have hregs : pendingRegs h.buffer = pendingRegs b' := by
      unfold pendingRegs
      rw [hwin, List.filter_cons_of_neg (p := fun r : StoredRequest => decide (r.req_type = .reg))
        fun h => absurd (of_decide_eq_true h) htype]
    refine ⟨?_, ?_, ?_, ?_, ?_⟩ <;> dsimp only
    · rw [hmt]
      exact hinv.tail_lt
    · rw [hmh]
      exact hinv.head_lt
    · rw [hmh, hmt, ← hregs]
      exact hinv.head_eq
    · rw [hmt, ← hregs]
      exact hinv.indices
    · rw [hmt, hpm, ← hregs, hrec, Option.toList_none, List.append_nil]
      exact hinv.records

end MapperInv

/-! ### Runs -/

section Runs

variable {m : Nat} {h h' : HandShake} {op : HandShakeOp}

/-- A request function other than ReqRegistration, as a step: a push of a
    request of its type, which is not a registration, with the records left
    alone. -/
theorem afterPush_of_requestWith {pid : Int} {req_type : GcServiceTask} {data_addr : Option Nat}
    {b' : GcServiceRequestsBuffer} (hreq : requestWith h.buffer pid req_type data_addr = some b') :
    Pushes h.buffer b' ∧ (b'.entries b'.head).stored.pid = pid ∧ (b'.entries b'.head).stored.req_type = req_type ∧
      (∀ d, data_addr = some d → (b'.entries b'.head).stored.data_addr = d) ∧
      b'.process_mappers = h.buffer.process_mappers ∧ b'.mapper_head = h.buffer.mapper_head ∧
      b'.mapper_tail = h.buffer.mapper_tail := by
  obtain ⟨hp, hentry, hpm, hmh, hmt⟩ := requestWith_eq_some hreq
  refine ⟨hp, by rw [GcServiceReq.stored, hentry], by rw [GcServiceReq.stored, hentry],
    fun d hd => by rw [GcServiceReq.stored, hentry, hd, Option.getD_some], hpm, hmh, hmt⟩

/-- A push that is not a registration leaves the records as they were. -/
def RecordsKept (h h' : HandShake) : Prop :=
  (h'.buffer.entries h'.buffer.head).stored.req_type ≠ .reg ∧ h'.registered = h.registered ∧
    h'.buffer.process_mappers = h.buffer.process_mappers ∧
    h'.buffer.mapper_head = h.buffer.mapper_head ∧ h'.buffer.mapper_tail = h.buffer.mapper_tail

/-- A registration moves `mapper_head_` on, writes its record there, points
    its entry at it, and logs it. -/
def RecordAdded (m : Nat) (h h' : HandShake) : Prop :=
  ∃ record, h'.buffer.mapper_head = (h.buffer.mapper_head + 1) % m ∧
    h'.buffer.mapper_tail = h.buffer.mapper_tail ∧
    (h'.buffer.entries h'.buffer.head).stored.req_type = .reg ∧
    (h'.buffer.entries h'.buffer.head).stored.data_addr = h'.buffer.mapper_head ∧
    h'.buffer.process_mappers = Function.update h.buffer.process_mappers h'.buffer.mapper_head record ∧
    h'.registered = h.registered ++ [h'.buffer.process_mappers h'.buffer.mapper_head]

/-- What a step of a request function does: a push of the request it asks
    for, logged, with the records left alone or one record added. -/
structure PushStep (m : Nat) (op : HandShakeOp) (h h' : HandShake) : Prop where
  pushes : Pushes h.buffer h'.buffer
  popped_eq : h'.popped = h.popped
  processed_eq : h'.processed = h.processed
  pushed_eq : h'.pushed = h.pushed ++ [(h'.buffer.entries h'.buffer.head).stored]
  stores : op.Stores (h'.buffer.entries h'.buffer.head).stored
  records : RecordsKept h h' ∨ RecordAdded m h h'

/-- A request is determined by its three fields. -/
theorem StoredRequest.eq_of {r : StoredRequest} {pid : Int} {req_type : GcServiceTask} {data_addr : Nat}
    (hpid : r.pid = pid) (htype : r.req_type = req_type) (hdata : r.data_addr = data_addr) :
    r = ⟨pid, req_type, data_addr⟩ := by
  rw [← hpid, ← htype, ← hdata]

/-- The request functions that share `requestWith` are push steps. -/
theorem pushStep_of_requestWith {pid : Int} {req_type : GcServiceTask} {data_addr : Option Nat}
    (hne : req_type ≠ .reg)
    (hstores : ∀ r : StoredRequest, r.pid = pid → r.req_type = req_type →
      (∀ d, data_addr = some d → r.data_addr = d) → op.Stores r)
    (hs : (requestWith h.buffer pid req_type data_addr).map h.afterPush = some h') :
    PushStep m op h h' := by
  obtain ⟨b', hreq, rfl⟩ := Option.map_eq_some_iff.1 hs
  obtain ⟨hp, hpid, htype, hdata, hpm, hmh, hmt⟩ := afterPush_of_requestWith hreq
  exact ⟨hp, rfl, rfl, rfl, hstores _ hpid htype hdata, .inl ⟨htype ▸ hne, rfl, hpm, hmh, hmt⟩⟩

/-- Every step of a request function is a push step. -/
theorem handShakeStep_push (hop : op ≠ .listenToRequests) (hs : handShakeStep m op h = some h') :
    PushStep m op h h' := by
  cases op with
  | reqConcCollection pid args =>
    exact pushStep_of_requestWith (by decide)
      (fun _ hpid htype hdata => StoredRequest.eq_of hpid htype (hdata args rfl)) hs
  | reqAllocationGC pid args =>
    exact pushStep_of_requestWith (by decide)
      (fun _ hpid htype hdata => StoredRequest.eq_of hpid htype (hdata args rfl)) hs
  | reqExplicitCollection pid args =>
    exact pushStep_of_requestWith (by decide)
      (fun _ hpid htype hdata => StoredRequest.eq_of hpid htype (hdata args rfl)) hs
  | reqHeapTrim pid =>
    exact pushStep_of_requestWith (by decide) (fun _ hpid htype _ => ⟨hpid, htype⟩) hs
  | reqUpdateStats pid =>
    exact pushStep_of_requestWith (by decide) (fun _ hpid htype _ => ⟨hpid, htype⟩) hs
  | reqRegistration pid space_index space_addr =>
    obtain ⟨b', hreq, rfl⟩ := Option.map_eq_some_iff.1 hs
    obtain ⟨hp, hmh, hmt, hentry, hpm⟩ := reqRegistration_eq_some hreq
    refine ⟨hp, rfl, rfl, rfl, ⟨congrArg StoredRequest.pid hentry, congrArg StoredRequest.req_type hentry⟩,
      .inr ⟨_, hmh, hmt, congrArg StoredRequest.req_type hentry, congrArg StoredRequest.data_addr hentry,
        hpm, rfl⟩⟩
  | listenToRequests => exact absurd rfl hop

/-- A step of a request function is the push with its log, and the record
    log as the step leaves it. -/
theorem PushStep.eq (hp : PushStep m op h h') :
    h' = { h.afterPush h'.buffer with registered := h'.registered } := by
  obtain ⟨buffer, pushed, popped, registered, processed⟩ := h'
  have hpushed := hp.pushed_eq
  have hpopped := hp.popped_eq
  have hprocessed := hp.processed_eq
  dsimp only at hpushed hpopped hprocessed
  rw [hpushed, hpopped, hprocessed]
  rfl

/-- What every run keeps: the request ring's invariant and, with at least
    128 records, the records'. -/
def HandShakeInv (m : Nat) (h : HandShake) : Prop :=
  RingInv h ∧ (128 ≤ m → MapperInv m h)

/-- Every critical section keeps the invariant. -/
theorem handShakeInv_step (hinv : HandShakeInv m h) (hs : handShakeStep m op h = some h') :
    HandShakeInv m h' := by
  obtain ⟨hring, hmap⟩ := hinv
  by_cases hop : op = .listenToRequests
  · subst hop
    obtain ⟨⟨⟨entry, record⟩, b'⟩, hl, rfl⟩ := Option.map_eq_some_iff.1 hs
    exact ⟨(hring.pop hl).2, fun hm => (hmap hm).pop hring hl⟩
  · have hpush := handShakeStep_push hop hs
    rw [hpush.eq]
    rcases hpush.records with ⟨htype, hreg, hpm, hmh, hmt⟩ | ⟨record, hmh, hmt, htype, hdata, hpm, hreg⟩
    · rw [hreg]
      exact ⟨(hring.push hpush.pushes).1,
        fun hm => (hmap hm).push_other hring hpush.pushes htype ⟨hpm, hmh, hmt⟩⟩
    · rw [hreg]
      exact ⟨(hring.push hpush.pushes).1.with_registered _,
        fun hm => (hmap hm).push_reg hm hring hpush.pushes hmh hmt htype hdata hpm⟩

/-- Every reachable state keeps the invariant. -/
theorem handShakeInv_reach (hreach : (handShakeSystem m).Reach h) : HandShakeInv m h := by
  refine System.Inductive.reach ⟨fun h₀ h₀init => ?_,
    fun op h h' hinv hs => @handShakeInv_step m h h' op hinv hs⟩ hreach
  subst h₀init
  exact ⟨RingInv.init m, fun hm => MapperInv.init (by omega)⟩

/-- A push writes no queued entry. -/
theorem PushStep.entries_pending (hring : RingInv h) (hp : PushStep m op h h') {k : Nat}
    (hk : k < h.buffer.queued) :
    h'.buffer.entries ((h.buffer.tail + k) % 128) = h.buffer.entries ((h.buffer.tail + k) % 128) := by
  have hroom : h.buffer.queued < 128 := by
    have := hring.sum
    have := hp.pushes.available_ne
    omega
  refine hp.pushes.entries_eq _ ?_
  rw [hp.pushes.head_eq, hring.head_eq]
  exact slot_ne hroom hk

/-- With at least 128 records, no critical section writes the record of a
    queued registration. -/
theorem MapperInv.records_pending (hm : 128 ≤ m) (hring : RingInv h) (hinv : MapperInv m h)
    (hs : handShakeStep m op h = some h') {r : StoredRequest} (hr : r ∈ pendingRegs h.buffer) :
    h'.buffer.process_mappers r.data_addr = h.buffer.process_mappers r.data_addr := by
  by_cases hop : op = .listenToRequests
  · subst hop
    obtain ⟨⟨⟨entry, record⟩, b'⟩, hl, rfl⟩ := Option.map_eq_some_iff.1 hs
    obtain ⟨-, -, -, -, -, -, -, hpm, -⟩ := listenToRequests_eq_some hl
    rw [hpm]
  · have hpush := handShakeStep_push hop hs
    rcases hpush.records with ⟨-, -, hpm, -, -⟩ | ⟨record, hmh, -, -, -, hpm, -⟩
    · rw [hpm]
    · -- the new record goes to the slot after the queued registrations' records
      set n := (pendingRegs h.buffer).length
      have hroom : n < m := by
        have hle : n ≤ h.buffer.queued :=
          (List.length_filter_le _ _).trans (length_window _ _ _ _).le
        have := hring.sum
        have := hpush.pushes.available_ne
        omega
      have hmem : r.data_addr ∈ window id m h.buffer.mapper_tail n := by
        rw [← hinv.indices]
        exact List.mem_map_of_mem hr
      obtain ⟨k, hk, hidx⟩ := mem_window.1 hmem
      rw [hpm, Function.update_of_ne]
      rw [← hidx, hmh, hinv.head_eq]
      exact slot_ne hroom hk

end Runs

/-- The GC service request ring in every reachable state, over every
    interleaving of the processes' requests and the service's pops:
    `available_` and `queued_` share the 128 entries, `head_` is
    `tail_ + queued_ - 1` modulo 128, the queued entries from `tail_` on are
    the requests pushed and not yet popped, in push order, so that the pops
    return the requests in push order as each push left them; each request
    function pushes the request it asks for, and writes no queued entry; and
    with at least 128 records, the records of the queued registrations are
    the ones they wrote, in order, and no critical section writes one. -/
theorem handShake_ring_fifo (m : Nat) {h : HandShake} (hreach : (handShakeSystem m).Reach h) :
    h.buffer.available + h.buffer.queued = 128 ∧ h.buffer.queued ≤ 128 ∧
    (h.buffer.head : Int) = ((h.buffer.tail : Int) + h.buffer.queued - 1) % 128 ∧
    h.popped ++ pendingRequests h.buffer = h.pushed ∧
    (∀ op h', op ≠ .listenToRequests → (handShakeSystem m).step op h h' →
      (∃ r, op.Stores r ∧ h'.pushed = h.pushed ++ [r]) ∧
      ∀ k < h.buffer.queued,
        h'.buffer.entries ((h.buffer.tail + k) % 128) = h.buffer.entries ((h.buffer.tail + k) % 128)) ∧
    (128 ≤ m → h.processed ++ pendingRecords h.buffer = h.registered ∧
      ∀ op h', (handShakeSystem m).step op h h' →
        ∀ r ∈ pendingRegs h.buffer, h'.buffer.process_mappers r.data_addr = h.buffer.process_mappers r.data_addr) := by
  obtain ⟨hring, hmap⟩ := handShakeInv_reach hreach
  refine ⟨hring.sum, by have := hring.sum; omega, ?_, hring.fifo, fun op h' hop hs => ?_, fun hm => ?_⟩
  · have hhead := hring.head_eq
    have hlt := hring.head_lt
    omega
  · have hpush := handShakeStep_push hop hs
    exact ⟨⟨_, hpush.stores, hpush.pushed_eq⟩, fun k hk => hpush.entries_pending hring hk⟩
  · have hinv := hmap hm
    exact ⟨by rw [hinv.pendingRecords_eq]; exact hinv.records,
      fun op h' hs r hr => hinv.records_pending hm hring hs hr⟩

/-- Process 3 registers space 1 at 4096, then asks for a heap trim. -/
def regThenTrim : List HandShakeOp := [.reqRegistration 3 1 4096, .reqHeapTrim 3]

/-- The state `regThenTrim` leaves with 128 records: both requests queued. -/
def regThenTrimState : HandShake :=
  (System.runFun (handShakeStep 128) ⟨init 128, [], [], [], []⟩ regThenTrim).getD ⟨init 128, [], [], [], []⟩

theorem handShake_ring_fifo_regThenTrim :
    (handShakeSystem 128).Reach regThenTrimState ∧
    (regThenTrimState.buffer.available + regThenTrimState.buffer.queued = 128 ∧
    regThenTrimState.buffer.queued ≤ 128 ∧
    (regThenTrimState.buffer.head : Int) =
      ((regThenTrimState.buffer.tail : Int) + regThenTrimState.buffer.queued - 1) % 128 ∧
    regThenTrimState.popped ++ pendingRequests regThenTrimState.buffer = regThenTrimState.pushed ∧
    (∀ op h', op ≠ .listenToRequests → (handShakeSystem 128).step op regThenTrimState h' →
      (∃ r, op.Stores r ∧ h'.pushed = regThenTrimState.pushed ++ [r]) ∧
      ∀ k < regThenTrimState.buffer.queued,
        h'.buffer.entries ((regThenTrimState.buffer.tail + k) % 128) =
          regThenTrimState.buffer.entries ((regThenTrimState.buffer.tail + k) % 128)) ∧
    (128 ≤ 128 → regThenTrimState.processed ++ pendingRecords regThenTrimState.buffer =
        regThenTrimState.registered ∧
      ∀ op h', (handShakeSystem 128).step op regThenTrimState h' →
        ∀ r ∈ pendingRegs regThenTrimState.buffer,
          h'.buffer.process_mappers r.data_addr = regThenTrimState.buffer.process_mappers r.data_addr)) := by
  -- both requests evaluate to pushes from Init
  have hrun : (handShakeSystem 128).Run ⟨init 128, [], [], [], []⟩ regThenTrim regThenTrimState :=
    System.Run.of_runFun rfl
  have hreach : (handShakeSystem 128).Reach regThenTrimState := hrun.reach (System.Reach.init rfl)
  exact ⟨hreach, handShake_ring_fifo 128 hreach⟩

end Gc

end ArtRuntime
