import Egressfox.Endpoint.Identity
import Egressfox.Lib.Execution
import Egressfox.Lib.Semaphore

/-!
# The bounded scheduler of probes

`Scheduler.Run` and `acquire` of `internal/probe/scheduler.go`.

The dispatcher sends the jobs with their indices to a channel, and workers receive them.  A worker
takes a token of the endpoint and then one of the target before it executes a job, and gives both
back in the other order.  Wherever a goroutine waits for a channel it also waits for the context,
so when the context is cancelled both ways are open.

A step of the machine is one operation of one goroutine on what is shared.  `Move` says once what
a worker can do; the three parts of the invariant are about the tokens (`Tokens`), about where
each job is (`Placement`) and about what was written to the results (`Written`).
-/

namespace Egressfox.Probe

open Lib

/-! ## Configuration -/

def maxSchedulerConcurrency : Int := 64
def maxSchedulerQueue : Int := 4096
def maxSchedulerJobs : Int := 10000

/-- `ScheduleConfig`. -/
structure ScheduleConfig where
  concurrency : Int
  queue : Int
  perEndpoint : Int
  perTarget : Int
  maxJobs : Int
deriving DecidableEq, Repr

/-- `DefaultScheduleConfig`. -/
def defaultScheduleConfig : ScheduleConfig := ⟨4, 256, 1, 2, maxSchedulerJobs⟩

/-- `ScheduleConfig.valid`. -/
def ScheduleConfig.valid (config : ScheduleConfig) : Bool :=
  config.concurrency ≥ 1 && config.concurrency ≤ maxSchedulerConcurrency &&
    config.queue ≥ 1 && config.queue ≤ maxSchedulerQueue &&
    config.perEndpoint ≥ 1 && config.perEndpoint ≤ config.concurrency &&
    config.perTarget ≥ 1 && config.perTarget ≤ config.concurrency &&
    config.maxJobs ≥ 1 && config.maxJobs ≤ maxSchedulerJobs

/-- The keys of a job: the texts of `Record.ID` and `Target.ID`. -/
structure Keys (J : Type) where
  endpoint : J → Bytes
  target : J → Bytes

/-! ## The machine -/

/-- `indexedJob`. -/
structure IndexedJob (J : Type) where
  index : Nat
  job : J
deriving DecidableEq

/-- An element of the results: the zero value, what the runner returned, or the error
`cancelled`. -/
inductive Result (V : Type) where
  | unset
  | outcome (value : V)
  | cancelled
deriving DecidableEq

/-- What the goroutines of a call of `Run` share. -/
structure Shared (J V : Type) where
  /-- The next job of the dispatcher. -/
  next : Nat := 0
  closed : Bool := false
  queue : List (IndexedJob J) := []
  /-- The tokens in `endpointLimits` and in `targetLimits`. -/
  endpoints : Bytes → Nat := fun _ => 0
  targets : Bytes → Nat := fun _ => 0
  results : Nat → Result V := fun _ => .unset
  /-- The context is cancelled. -/
  cancelled : Bool := false
  /-- The calls of the runner that have returned. -/
  calls : List (IndexedJob J × V) := []
  /-- The counters of the jobs that are executed, and their peaks. -/
  running : Nat := 0
  endpointRunning : Bytes → Nat := fun _ => 0
  targetRunning : Bytes → Nat := fun _ => 0
  peakRunning : Nat := 0
  peakEndpointRunning : Nat := 0
  peakTargetRunning : Nat := 0

/-- Where a worker is. -/
inductive Worker (J : Type) where
  /-- It waits for a job. -/
  | idle
  | received (item : IndexedJob J)
  /-- It has a token of the endpoint. -/
  | holding (item : IndexedJob J)
  /-- It was cancelled before it had a token of the target. -/
  | refused (item : IndexedJob J)
  /-- It executes the job, with both tokens. -/
  | running (item : IndexedJob J)
  | finished (item : IndexedJob J)
  /-- It has given back the token of the target. -/
  | releasing (item : IndexedJob J)
  | done

/-- What a worker can do. -/
inductive WorkerAction (V : Type) where
  | receive
  | quit
  | acquireEndpoint
  | cancelEndpoint
  | acquireTarget
  | cancelTarget
  | releaseRefused
  | finish (value : V)
  | releaseTarget
  | releaseEndpoint

/-- What can happen. -/
inductive Action (V : Type) where
  | cancel
  | send
  | abort
  | close
  | worker (n : Nat) (action : WorkerAction V)

/-- A call of `Run`. -/
structure Machine (J V : Type) where
  shared : Shared J V := {}
  workers : List (Worker J) := []

section Model

variable {J V : Type} (config : ScheduleConfig) (keys : Keys J) (jobs : List J)

namespace Shared

/-- A worker starts to execute a job: it has a token of the target, and the counters go up. -/
def start (s : Shared J V) (item : IndexedJob J) : Shared J V :=
  let endpoint := keys.endpoint item.job
  let target := keys.target item.job
  { s with
    targets := Semaphore.acquire s.targets target
    running := s.running + 1
    endpointRunning := Semaphore.acquire s.endpointRunning endpoint
    targetRunning := Semaphore.acquire s.targetRunning target
    peakRunning := max s.peakRunning (s.running + 1)
    peakEndpointRunning := max s.peakEndpointRunning (s.endpointRunning endpoint + 1)
    peakTargetRunning := max s.peakTargetRunning (s.targetRunning target + 1) }

/-- The runner has returned: its result is written, and the counters go down. -/
def finish (s : Shared J V) (item : IndexedJob J) (value : V) : Shared J V :=
  { s with
    results := Function.update s.results item.index (.outcome value)
    calls := s.calls ++ [(item, value)]
    running := s.running - 1
    endpointRunning := Semaphore.release s.endpointRunning (keys.endpoint item.job)
    targetRunning := Semaphore.release s.targetRunning (keys.target item.job) }

/-- The error `cancelled` is written. -/
def refuse (s : Shared J V) (item : IndexedJob J) : Shared J V :=
  { s with results := Function.update s.results item.index .cancelled }

end Shared

/-- A step of a worker. -/
def workerStep (s : Shared J V) : Worker J → WorkerAction V → Option (Shared J V × Worker J)
  | .idle, .receive =>
    match s.queue with
    | [] => none
    | item :: queue => some ({ s with queue }, .received item)
  | .idle, .quit => if s.closed && s.queue.isEmpty then some (s, .done) else none
  | .received item, .acquireEndpoint =>
    if s.endpoints (keys.endpoint item.job) < config.perEndpoint.toNat then
      some ({ s with endpoints := Semaphore.acquire s.endpoints (keys.endpoint item.job) },
        .holding item)
    else none
  | .received item, .cancelEndpoint => if s.cancelled then some (s.refuse item, .idle) else none
  | .holding item, .acquireTarget =>
    if s.targets (keys.target item.job) < config.perTarget.toNat then
      some (s.start keys item, .running item)
    else none
  | .holding item, .cancelTarget => if s.cancelled then some (s, .refused item) else none
  | .refused item, .releaseRefused =>
    if 0 < s.endpoints (keys.endpoint item.job) then
      some ({ s.refuse item with
        endpoints := Semaphore.release s.endpoints (keys.endpoint item.job) }, .idle)
    else none
  | .running item, .finish value => some (s.finish keys item value, .finished item)
  | .finished item, .releaseTarget =>
    if 0 < s.targets (keys.target item.job) then
      some ({ s with targets := Semaphore.release s.targets (keys.target item.job) },
        .releasing item)
    else none
  | .releasing item, .releaseEndpoint =>
    if 0 < s.endpoints (keys.endpoint item.job) then
      some ({ s with endpoints := Semaphore.release s.endpoints (keys.endpoint item.job) }, .idle)
    else none
  | _, _ => none

/-- A step of the dispatcher, of a worker or of the context. -/
def step (m : Machine J V) : Action V → Option (Machine J V)
  | .cancel =>
    if m.shared.cancelled then none
    else some { m with shared := { m.shared with cancelled := true } }
  | .send =>
    match jobs[m.shared.next]? with
    | none => none
    | some job =>
      if !m.shared.closed && decide (m.shared.queue.length < config.queue.toNat) then
        some { m with
          shared := { m.shared with
            queue := m.shared.queue ++ [⟨m.shared.next, job⟩]
            next := m.shared.next + 1 } }
      else none
  | .abort =>
    if !m.shared.closed && decide (m.shared.next < jobs.length) && m.shared.cancelled then
      some { m with
        shared := { m.shared with
          results := fun i =>
            if m.shared.next ≤ i && i < jobs.length then .cancelled else m.shared.results i
          next := jobs.length
          closed := true } }
    else none
  | .close =>
    if !m.shared.closed && decide (m.shared.next = jobs.length) then
      some { m with shared := { m.shared with closed := true } }
    else none
  | .worker n action =>
    match m.workers[n]? with
    | none => none
    | some w =>
      match workerStep config keys m.shared w action with
      | none => none
      | some (shared, w') => some ⟨shared, m.workers.set n w'⟩

/-- `Scheduler.Run` up to the point where its goroutines run. -/
def run : Except String (Machine J V) :=
  if jobs.length > config.maxJobs then .error "job_limit"
  else if jobs.length = 0 then .ok { shared := { closed := true } }
  else if jobs.any fun job => keys.endpoint job = Endpoint.invalidID || keys.target job = [] then
    .error "job"
  else .ok { workers := List.replicate (min config.concurrency.toNat jobs.length) .idle }

end Model

section

variable {J V : Type}

def Worker.isDone : Worker J → Bool
  | .done => true
  | _ => false

/-- `Run` returns: the dispatcher is at its end, and so are all workers. -/
def Machine.final (m : Machine J V) : Prop :=
  m.shared.closed = true ∧ ∀ w ∈ m.workers, w.isDone = true

/-! ## What a worker holds -/

namespace Worker

/-- The job that a worker executes. -/
def executing : Worker J → Option (IndexedJob J)
  | .running item => some item
  | _ => none

/-- The job of a worker that has no result yet. -/
def pending : Worker J → Option (IndexedJob J)
  | .received item | .holding item | .refused item | .running item => some item
  | _ => none

variable (keys : Keys J)

/-- The key of the endpoint's token that a worker has. -/
def endpointToken : Worker J → Option Bytes
  | .holding item | .refused item | .running item | .finished item | .releasing item =>
    some (keys.endpoint item.job)
  | _ => none

/-- The key of the target's token that a worker has. -/
def targetToken : Worker J → Option Bytes
  | .running item | .finished item => some (keys.target item.job)
  | _ => none

def endpointExecuting (w : Worker J) : Option Bytes :=
  w.executing.map fun item => keys.endpoint item.job

def targetExecuting (w : Worker J) : Option Bytes :=
  w.executing.map fun item => keys.target item.job

end Worker

/-- What a worker can do to what is shared. -/
inductive Move (config : ScheduleConfig) (keys : Keys J) (s : Shared J V) :
    Worker J → Shared J V → Worker J → Prop where
  | receive {item : IndexedJob J} {queue : List (IndexedJob J)} (hqueue : s.queue = item :: queue) :
      Move config keys s .idle { s with queue } (.received item)
  | quit (hclosed : s.closed = true) (hqueue : s.queue = []) : Move config keys s .idle s .done
  | acquireEndpoint {item : IndexedJob J}
      (hroom : s.endpoints (keys.endpoint item.job) < config.perEndpoint.toNat) :
      Move config keys s (.received item)
        { s with endpoints := Semaphore.acquire s.endpoints (keys.endpoint item.job) }
        (.holding item)
  | cancelEndpoint {item : IndexedJob J} (hcancelled : s.cancelled = true) :
      Move config keys s (.received item) (s.refuse item) .idle
  | acquireTarget {item : IndexedJob J}
      (hroom : s.targets (keys.target item.job) < config.perTarget.toNat) :
      Move config keys s (.holding item) (s.start keys item) (.running item)
  | cancelTarget {item : IndexedJob J} (hcancelled : s.cancelled = true) :
      Move config keys s (.holding item) s (.refused item)
  | releaseRefused {item : IndexedJob J} :
      Move config keys s (.refused item)
        { s.refuse item with
          endpoints := Semaphore.release s.endpoints (keys.endpoint item.job) } .idle
  | finish {item : IndexedJob J} (value : V) :
      Move config keys s (.running item) (s.finish keys item value) (.finished item)
  | releaseTarget {item : IndexedJob J} :
      Move config keys s (.finished item)
        { s with targets := Semaphore.release s.targets (keys.target item.job) } (.releasing item)
  | releaseEndpoint {item : IndexedJob J} :
      Move config keys s (.releasing item)
        { s with endpoints := Semaphore.release s.endpoints (keys.endpoint item.job) } .idle

variable {config : ScheduleConfig} {keys : Keys J} {jobs : List J}
  {s s' : Shared J V} {w w' : Worker J} {workers workers' rest : List (Worker J)}

theorem move_of_workerStep {action : WorkerAction V}
    (h : workerStep config keys s w action = some (s', w')) : Move config keys s w s' w' := by
  unfold workerStep at h
  split at h
  · split at h
    · cases h
    next item queue hqueue =>
      obtain ⟨rfl, rfl⟩ := Prod.mk.inj (Option.some.inj h)
      exact .receive hqueue
  · split_ifs at h with hguard
    obtain ⟨rfl, rfl⟩ := Prod.mk.inj (Option.some.inj h)
    rw [Bool.and_eq_true, List.isEmpty_iff] at hguard
    exact .quit hguard.1 hguard.2
  · split_ifs at h with hroom
    obtain ⟨rfl, rfl⟩ := Prod.mk.inj (Option.some.inj h)
    exact .acquireEndpoint hroom
  · split_ifs at h with hcancelled
    obtain ⟨rfl, rfl⟩ := Prod.mk.inj (Option.some.inj h)
    exact .cancelEndpoint hcancelled
  · split_ifs at h with hroom
    obtain ⟨rfl, rfl⟩ := Prod.mk.inj (Option.some.inj h)
    exact .acquireTarget hroom
  · split_ifs at h with hcancelled
    obtain ⟨rfl, rfl⟩ := Prod.mk.inj (Option.some.inj h)
    exact .cancelTarget hcancelled
  · split_ifs at h
    obtain ⟨rfl, rfl⟩ := Prod.mk.inj (Option.some.inj h)
    exact .releaseRefused
  · obtain ⟨rfl, rfl⟩ := Prod.mk.inj (Option.some.inj h)
    exact .finish _
  · split_ifs at h
    obtain ⟨rfl, rfl⟩ := Prod.mk.inj (Option.some.inj h)
    exact .releaseTarget
  · split_ifs at h
    obtain ⟨rfl, rfl⟩ := Prod.mk.inj (Option.some.inj h)
    exact .releaseEndpoint
  · cases h

/-! ## Tokens -/

/-- The tokens that are taken are those of the workers, and within the limits. -/
structure Tokens (config : ScheduleConfig) (keys : Keys J) (s : Shared J V)
    (workers : List (Worker J)) : Prop where
  endpoints : Semaphore.Counted (Worker.endpointToken keys) s.endpoints workers
  endpoints_le : ∀ key, s.endpoints key ≤ config.perEndpoint.toNat
  targets : Semaphore.Counted (Worker.targetToken keys) s.targets workers
  targets_le : ∀ key, s.targets key ≤ config.perTarget.toNat

/-- The counters are those of the jobs that are executed, and the peaks are within the limits. -/
structure Counters (config : ScheduleConfig) (keys : Keys J) (s : Shared J V)
    (workers : List (Worker J)) : Prop where
  few : workers.length ≤ config.concurrency.toNat
  running : s.running = workers.countP fun w => w.executing.isSome
  endpointRunning : Semaphore.Counted (Worker.endpointExecuting keys) s.endpointRunning workers
  targetRunning : Semaphore.Counted (Worker.targetExecuting keys) s.targetRunning workers
  peakRunning : s.peakRunning ≤ config.concurrency.toNat
  peakEndpointRunning : s.peakEndpointRunning ≤ config.perEndpoint.toNat
  peakTargetRunning : s.peakTargetRunning ≤ config.perTarget.toNat

theorem Tokens.perm (h : Tokens config keys s workers) (hperm : workers'.Perm workers) :
    Tokens config keys s workers' where
  endpoints := h.endpoints.perm hperm
  endpoints_le := h.endpoints_le
  targets := h.targets.perm hperm
  targets_le := h.targets_le

theorem Counters.perm (h : Counters config keys s workers) (hperm : workers'.Perm workers) :
    Counters config keys s workers' where
  few := hperm.length_eq ▸ h.few
  running := by rw [h.running, hperm.countP_eq]
  endpointRunning := h.endpointRunning.perm hperm
  targetRunning := h.targetRunning.perm hperm
  peakRunning := h.peakRunning
  peakEndpointRunning := h.peakEndpointRunning
  peakTargetRunning := h.peakTargetRunning

/-- A worker goes on with the tokens it has. -/
theorem Tokens.keep (h : Tokens config keys s (w :: rest)) (hendpoints : s'.endpoints = s.endpoints)
    (htargets : s'.targets = s.targets) (hendpoint : w'.endpointToken keys = w.endpointToken keys)
    (htarget : w'.targetToken keys = w.targetToken keys) :
    Tokens config keys s' (w' :: rest) where
  endpoints := hendpoints ▸ h.endpoints.keep hendpoint
  endpoints_le := hendpoints ▸ h.endpoints_le
  targets := htargets ▸ h.targets.keep htarget
  targets_le := htargets ▸ h.targets_le

/-- **Workers keep the tokens.** -/
theorem Tokens.move (h : Tokens config keys s (w :: rest)) (hmove : Move config keys s w s' w') :
    Tokens config keys s' (w' :: rest) := by
  cases hmove with
  | acquireEndpoint hroom =>
    exact ⟨h.endpoints.acquire rfl rfl, Semaphore.acquire_le h.endpoints_le hroom,
      h.targets.keep rfl, h.targets_le⟩
  | acquireTarget hroom =>
    exact ⟨h.endpoints.keep rfl, h.endpoints_le, h.targets.acquire rfl rfl,
      Semaphore.acquire_le h.targets_le hroom⟩
  | releaseRefused | releaseEndpoint =>
    exact ⟨h.endpoints.release rfl rfl, Semaphore.release_le h.endpoints_le _,
      h.targets.keep rfl, h.targets_le⟩
  | releaseTarget =>
    exact ⟨h.endpoints.keep rfl, h.endpoints_le, h.targets.release rfl rfl,
      Semaphore.release_le h.targets_le _⟩
  | _ => exact h.keep rfl rfl rfl rfl

/-- Workers that execute jobs of an endpoint have its tokens. -/
theorem Worker.endpointToken_of_executing {key : Bytes} (w : Worker J)
    (h : w.endpointExecuting keys = some key) : w.endpointToken keys = some key := by
  cases w with
  | running item => exact h
  | _ => cases h

theorem Worker.targetToken_of_executing {key : Bytes} (w : Worker J)
    (h : w.targetExecuting keys = some key) : w.targetToken keys = some key := by
  cases w with
  | running item => exact h
  | _ => cases h

/-- No more jobs of an endpoint are executed than it has tokens. -/
theorem Counters.endpointRunning_le (h : Counters config keys s workers)
    (htokens : Tokens config keys s workers) (key : Bytes) :
    s.endpointRunning key ≤ config.perEndpoint.toNat :=
  (h.endpointRunning.le htokens.endpoints Worker.endpointToken_of_executing).trans
    (htokens.endpoints_le key)

theorem Counters.targetRunning_le (h : Counters config keys s workers)
    (htokens : Tokens config keys s workers) (key : Bytes) :
    s.targetRunning key ≤ config.perTarget.toNat :=
  (h.targetRunning.le htokens.targets Worker.targetToken_of_executing).trans
    (htokens.targets_le key)

/-- A worker does something else than to start or to finish. -/
theorem Counters.keep (h : Counters config keys s (w :: rest)) (hrunning : s'.running = s.running)
    (hendpoint : s'.endpointRunning = s.endpointRunning)
    (htarget : s'.targetRunning = s.targetRunning) (hpeak : s'.peakRunning = s.peakRunning)
    (hpeakEndpoint : s'.peakEndpointRunning = s.peakEndpointRunning)
    (hpeakTarget : s'.peakTargetRunning = s.peakTargetRunning)
    (hexecuting : w'.executing = w.executing) : Counters config keys s' (w' :: rest) where
  few := h.few
  running := by
    rw [hrunning, h.running, List.countP_cons, List.countP_cons, hexecuting]
  endpointRunning := hendpoint ▸ h.endpointRunning.keep (by
    rw [Worker.endpointExecuting, hexecuting]
    rfl)
  targetRunning := htarget ▸ h.targetRunning.keep (by
    rw [Worker.targetExecuting, hexecuting]
    rfl)
  peakRunning := hpeak ▸ h.peakRunning
  peakEndpointRunning := hpeakEndpoint ▸ h.peakEndpointRunning
  peakTargetRunning := hpeakTarget ▸ h.peakTargetRunning

/-- A worker starts to execute a job. -/
theorem Counters.start {item : IndexedJob J} (h : Counters config keys s (.holding item :: rest))
    (htokens : Tokens config keys (s.start keys item) (.running item :: rest)) :
    Counters config keys (s.start keys item) (.running item :: rest) := by
  have hrunning : s.running + 1 =
      (Worker.running item :: rest).countP fun w => w.executing.isSome := by
    rw [h.running, List.countP_cons, List.countP_cons]
    rfl
  have hendpoint : Semaphore.Counted (Worker.endpointExecuting keys)
      (s.start keys item).endpointRunning (.running item :: rest) :=
    h.endpointRunning.acquire rfl rfl
  have htarget : Semaphore.Counted (Worker.targetExecuting keys)
      (s.start keys item).targetRunning (.running item :: rest) :=
    h.targetRunning.acquire rfl rfl
  have hcurrent : (s.start keys item).endpointRunning (keys.endpoint item.job) =
      s.endpointRunning (keys.endpoint item.job) + 1 := Function.update_self _ _ _
  have hcurrent' : (s.start keys item).targetRunning (keys.target item.job) =
      s.targetRunning (keys.target item.job) + 1 := Function.update_self _ _ _
  refine ⟨h.few, hrunning, hendpoint, htarget, ?_, ?_, ?_⟩
  · refine max_le h.peakRunning ?_
    rw [hrunning]
    exact le_trans List.countP_le_length h.few
  · refine max_le h.peakEndpointRunning ?_
    rw [← hcurrent]
    exact (hendpoint.le htokens.endpoints Worker.endpointToken_of_executing).trans
      (htokens.endpoints_le _)
  · refine max_le h.peakTargetRunning ?_
    rw [← hcurrent']
    exact (htarget.le htokens.targets Worker.targetToken_of_executing).trans (htokens.targets_le _)

/-- **Workers keep the counters.** -/
theorem Counters.move (h : Counters config keys s (w :: rest))
    (htokens : Tokens config keys s' (w' :: rest)) (hmove : Move config keys s w s' w') :
    Counters config keys s' (w' :: rest) := by
  cases hmove with
  | acquireTarget hroom => exact h.start htokens
  | finish value =>
    refine ⟨h.few, ?_, h.endpointRunning.release rfl rfl, h.targetRunning.release rfl rfl,
      h.peakRunning, h.peakEndpointRunning, h.peakTargetRunning⟩
    change s.running - 1 = _
    rw [h.running, List.countP_cons, List.countP_cons]
    rfl
  | _ => exact h.keep rfl rfl rfl rfl rfl rfl rfl

/-! ## Places -/

/-- The jobs that are sent and have no result yet. -/
def pendingJobs (s : Shared J V) (workers : List (Worker J)) : List (IndexedJob J) :=
  s.queue ++ workers.filterMap Worker.pending

/-- Every job is with the dispatcher, in one place of the queue or of the workers, or has a
result. -/
structure Placement (jobs : List J) (s : Shared J V) (workers : List (Worker J)) : Prop where
  once : ((pendingJobs s workers).map IndexedJob.index).Nodup
  sent : ∀ item ∈ pendingJobs s workers, jobs[item.index]? = some item.job ∧ item.index < s.next ∧
    s.results item.index = .unset
  settled : ∀ i < s.next, (∃ item ∈ pendingJobs s workers, item.index = i) ∨
    s.results i ≠ .unset
  unsent : ∀ i, s.next ≤ i → s.results i = .unset
  next_le : s.next ≤ jobs.length
  closed : s.closed = true → s.next = jobs.length
  done : ∀ w ∈ workers, w.isDone = true → s.closed = true ∧ s.queue = []

theorem pendingJobs_perm (hperm : workers'.Perm workers) :
    (pendingJobs s workers').Perm (pendingJobs s workers) :=
  (hperm.filterMap _).append_left _

/-- The places of the pending jobs do not matter. -/
theorem Placement.of_perm (h : Placement jobs s workers)
    (hpending : (pendingJobs s' workers').Perm (pendingJobs s workers)) (hnext : s'.next = s.next)
    (hresults : s'.results = s.results) (hclosed : s'.closed = s.closed)
    (hdone : ∀ w ∈ workers', w.isDone = true → s'.closed = true ∧ s'.queue = []) :
    Placement jobs s' workers' where
  once := (hpending.map _).nodup_iff.mpr h.once
  sent := by
    intro item hitem
    rw [hnext, hresults]
    exact h.sent item (hpending.mem_iff.mp hitem)
  settled := by
    intro i hi
    rw [hnext] at hi
    rw [hresults]
    refine (h.settled i hi).imp_left ?_
    rintro ⟨item, hitem, hindex⟩
    exact ⟨item, hpending.mem_iff.mpr hitem, hindex⟩
  unsent := by
    rw [hnext, hresults]
    exact h.unsent
  next_le := hnext ▸ h.next_le
  closed := by
    rw [hnext, hclosed]
    exact h.closed
  done := hdone

/-- A pending job gets its result. -/
theorem Placement.settle (h : Placement jobs s workers) {item : IndexedJob J}
    {pending : List (IndexedJob J)} (hpending : (pendingJobs s workers).Perm (item :: pending))
    (hpending' : (pendingJobs s' workers').Perm pending) (result : Result V)
    (hresult : result ≠ .unset) (hnext : s'.next = s.next)
    (hresults : s'.results = Function.update s.results item.index result)
    (hclosed : s'.closed = s.closed)
    (hdone : ∀ w ∈ workers', w.isDone = true → s'.closed = true ∧ s'.queue = []) :
    Placement jobs s' workers' := by
  have hitem := h.sent item (hpending.mem_iff.mpr List.mem_cons_self)
  have honce : (item.index :: pending.map IndexedJob.index).Nodup := by
    have := (hpending.map IndexedJob.index).nodup_iff.mp h.once
    exact this
  obtain ⟨hfresh, hnodup⟩ := List.nodup_cons.mp honce
  have hother : ∀ other ∈ pending, other.index ≠ item.index := fun other hmem heq =>
    hfresh (heq ▸ List.mem_map_of_mem hmem)
  refine ⟨(hpending'.map _).nodup_iff.mpr hnodup, ?_, ?_, ?_, hnext ▸ h.next_le, ?_, hdone⟩
  · intro other hmem
    have hmem := hpending'.mem_iff.mp hmem
    rw [hnext, hresults, Function.update_of_ne (hother other hmem)]
    exact h.sent other (hpending.mem_iff.mpr (List.mem_cons_of_mem _ hmem))
  · intro i hi
    rw [hnext] at hi
    rw [hresults]
    by_cases hindex : i = item.index
    · rw [hindex, Function.update_self]
      exact .inr hresult
    · rw [Function.update_of_ne hindex]
      refine (h.settled i hi).imp_left ?_
      rintro ⟨other, hmem, rfl⟩
      rcases List.mem_cons.mp (hpending.mem_iff.mp hmem) with rfl | hmem
      · exact absurd rfl hindex
      · exact ⟨other, hpending'.mem_iff.mpr hmem, rfl⟩
  · intro i hi
    rw [hnext] at hi
    rw [hresults, Function.update_of_ne (fun heq => absurd hitem.2.1 (by omega))]
    exact h.unsent i hi
  · rw [hnext, hclosed]
    exact h.closed

/-- What a worker that changes says about the others. -/
theorem Placement.done_of_cons (h : Placement jobs s (w :: rest)) (hw' : w'.isDone = false)
    (hclosed : s'.closed = s.closed) (hqueue : s'.queue = s.queue) :
    ∀ v ∈ w' :: rest, v.isDone = true → s'.closed = true ∧ s'.queue = [] := by
  intro v hv hdone
  rcases List.mem_cons.mp hv with rfl | hv
  · rw [hw'] at hdone
    cases hdone
  · rw [hclosed, hqueue]
    exact h.done v (List.mem_cons_of_mem _ hv) hdone

/-- **Workers keep every job in one place.** -/
theorem Placement.move (h : Placement jobs s (w :: rest)) (hmove : Move config keys s w s' w') :
    Placement jobs s' (w' :: rest) := by
  cases hmove with
  | @receive item queue hqueue =>
    refine h.of_perm ?_ rfl rfl rfl ?_
    · unfold pendingJobs
      rw [hqueue]
      exact List.perm_middle
    · intro v hv hdone
      rcases List.mem_cons.mp hv with rfl | hv
      · cases hdone
      · obtain ⟨-, hempty⟩ := h.done v (List.mem_cons_of_mem _ hv) hdone
        rw [hqueue] at hempty
        cases hempty
  | quit hclosed hqueue =>
    exact { h with done := fun v hv hdone => ⟨hclosed, hqueue⟩ }
  | cancelEndpoint hcancelled | releaseRefused =>
    exact h.settle List.perm_middle (List.Perm.refl _) .cancelled (fun h => nomatch h) rfl rfl rfl
      (h.done_of_cons rfl rfl rfl)
  | finish value =>
    exact h.settle List.perm_middle (List.Perm.refl _) (.outcome value) (fun h => nomatch h) rfl
      rfl rfl (h.done_of_cons rfl rfl rfl)
  | _ => exact { h with done := h.done_of_cons rfl rfl rfl }

/-! ## Results -/

/-- The results are those of the calls of the runner, one call for an index, and errors after a
cancellation. -/
structure Written (jobs : List J) (s : Shared J V) : Prop where
  once : (s.calls.map fun call => call.1.index).Nodup
  calls : ∀ call ∈ s.calls, jobs[call.1.index]? = some call.1.job ∧
    s.results call.1.index = .outcome call.2
  outcome : ∀ i value, s.results i = .outcome value → ∃ call ∈ s.calls, call.1.index = i
  cancelled : ∀ i, s.results i = .cancelled → s.cancelled = true

/-- A result `cancelled` is written where there was none. -/
theorem Written.refuse (h : Written jobs s) {item : IndexedJob J}
    (hunset : s.results item.index = .unset) (hcancelled : s.cancelled = true)
    (hresults : s'.results = Function.update s.results item.index .cancelled)
    (hcalls : s'.calls = s.calls) (hsame : s'.cancelled = s.cancelled) : Written jobs s' where
  once := hcalls ▸ h.once
  calls := by
    intro call hcall
    rw [hcalls] at hcall
    obtain ⟨hjob, hresult⟩ := h.calls call hcall
    refine ⟨hjob, ?_⟩
    rw [hresults, Function.update_of_ne, hresult]
    intro heq
    rw [heq, hunset] at hresult
    cases hresult
  outcome := by
    intro i value hresult
    rw [hresults] at hresult
    by_cases hi : i = item.index
    · rw [hi, Function.update_self] at hresult
      cases hresult
    · rw [Function.update_of_ne hi] at hresult
      rw [hcalls]
      exact h.outcome i value hresult
  cancelled := fun _ _ => hsame ▸ hcancelled

/-- The result of a call is written where there was none. -/
theorem Written.finish (h : Written jobs s) {item : IndexedJob J} {value : V}
    (hjob : jobs[item.index]? = some item.job) (hunset : s.results item.index = .unset) :
    Written jobs (s.finish keys item value) := by
  have hfresh : ∀ call ∈ s.calls, call.1.index ≠ item.index := by
    intro call hcall heq
    have hresult := (h.calls call hcall).2
    rw [heq, hunset] at hresult
    cases hresult
  refine ⟨?_, ?_, ?_, ?_⟩
  · change ((s.calls ++ [(item, value)]).map fun call => call.1.index).Nodup
    rw [List.map_append, List.nodup_append]
    refine ⟨h.once, List.nodup_singleton _, ?_⟩
    rintro i hi j hj rfl
    obtain ⟨call, hcall, rfl⟩ := List.mem_map.mp hi
    exact hfresh call hcall (List.mem_singleton.mp hj)
  · intro call hcall
    rcases List.mem_append.mp hcall with hcall | hcall
    · obtain ⟨hcalled, hresult⟩ := h.calls call hcall
      refine ⟨hcalled, ?_⟩
      change Function.update s.results item.index (.outcome value) call.1.index = _
      rw [Function.update_of_ne (hfresh call hcall), hresult]
    · obtain rfl := List.mem_singleton.mp hcall
      exact ⟨hjob, Function.update_self _ _ _⟩
  · intro i found hresult
    change Function.update s.results item.index (.outcome value) i = _ at hresult
    by_cases hi : i = item.index
    · exact ⟨(item, value), List.mem_append_right _ (List.mem_singleton_self _), hi.symm⟩
    · rw [Function.update_of_ne hi] at hresult
      obtain ⟨call, hcall, hindex⟩ := h.outcome i found hresult
      exact ⟨call, List.mem_append_left _ hcall, hindex⟩
  · intro i hresult
    change Function.update s.results item.index (.outcome value) i = _ at hresult
    by_cases hi : i = item.index
    · rw [hi, Function.update_self] at hresult
      cases hresult
    · rw [Function.update_of_ne hi] at hresult
      exact h.cancelled i hresult

/-- **Workers write each result once.** -/
theorem Written.move (h : Written jobs s) (hplaces : Placement jobs s (w :: rest))
    (hrefused : ∀ item, w = .refused item → s.cancelled = true)
    (hmove : Move config keys s w s' w') : Written jobs s' := by
  -- the job of a worker is pending
  have hpending : ∀ {item : IndexedJob J}, w.pending = some item →
      jobs[item.index]? = some item.job ∧ s.results item.index = .unset := by
    intro item hitem
    have hmem : item ∈ pendingJobs s (w :: rest) :=
      List.mem_append_right _ (List.mem_filterMap.mpr ⟨w, List.mem_cons_self, hitem⟩)
    obtain ⟨hjob, -, hunset⟩ := hplaces.sent item hmem
    exact ⟨hjob, hunset⟩
  cases hmove with
  | cancelEndpoint hcancelled => exact h.refuse (hpending rfl).2 hcancelled rfl rfl rfl
  | releaseRefused => exact h.refuse (hpending rfl).2 (hrefused _ rfl) rfl rfl rfl
  | finish value => exact h.finish (hpending rfl).1 (hpending rfl).2
  | _ => exact { h with }

/-- Workers are refused only after a cancellation. -/
def Refusals (s : Shared J V) (workers : List (Worker J)) : Prop :=
  ∀ item, Worker.refused item ∈ workers → s.cancelled = true

theorem Move.cancelled_eq (hmove : Move config keys s w s' w') : s'.cancelled = s.cancelled := by
  cases hmove with
  | _ => rfl

theorem Refusals.move (h : Refusals s (w :: rest)) (hmove : Move config keys s w s' w') :
    Refusals s' (w' :: rest) := by
  intro item hitem
  rw [hmove.cancelled_eq]
  rcases List.mem_cons.mp hitem with hrefused | hrest
  · cases hmove with
    | cancelTarget hcancelled => exact hcancelled
    | _ => cases hrefused
  · exact h item (List.mem_cons_of_mem _ hrest)

/-! ## Runs -/

/-- What holds in every state that is reached. -/
structure Invariant (config : ScheduleConfig) (keys : Keys J) (jobs : List J) (m : Machine J V) :
    Prop where
  staffed : jobs ≠ [] → m.workers ≠ []
  tokens : Tokens config keys m.shared m.workers
  counters : Counters config keys m.shared m.workers
  placement : Placement jobs m.shared m.workers
  written : Written jobs m.shared
  refusals : Refusals m.shared m.workers

variable {m m' : Machine J V}

/-- The invariant holds while all workers wait for a first job. -/
theorem invariant_idle {n : Nat} {closed : Bool} (hfew : n ≤ config.concurrency.toNat)
    (hclosed : closed = true → jobs = []) (hstaffed : jobs ≠ [] → n ≠ 0) :
    Invariant config keys jobs (⟨{ closed }, List.replicate n .idle⟩ : Machine J V) := by
  have hcounted : ∀ held : Worker J → Option Bytes, held .idle = none →
      Semaphore.Counted held (fun _ => 0) (List.replicate n .idle) := by
    intro held hidle key
    rw [List.countP_replicate, hidle]
    rfl
  have hidle : ∀ w : Worker J, w ∈ List.replicate n .idle → w = .idle := fun w hw =>
    List.eq_of_mem_replicate hw
  have hpending : pendingJobs ({ closed } : Shared J V) (List.replicate n .idle) = [] := by
    rw [pendingJobs, List.filterMap_replicate_of_none rfl]
    rfl
  refine ⟨fun hne hnil => hstaffed hne (by simpa using hnil),
    ⟨hcounted _ rfl, fun _ => Nat.zero_le _, hcounted _ rfl, fun _ => Nat.zero_le _⟩,
    ⟨?_, ?_, hcounted _ rfl, hcounted _ rfl, Nat.zero_le _, Nat.zero_le _, Nat.zero_le _⟩,
    ⟨?_, ?_, fun i hi => absurd hi (Nat.not_lt_zero i), fun _ _ => rfl, Nat.zero_le _, ?_, ?_⟩,
    ⟨List.nodup_nil, fun _ hcall => (nomatch hcall), fun _ _ hresult => (nomatch hresult),
      fun _ hresult => (nomatch hresult)⟩, ?_⟩
  · rw [List.length_replicate]
    exact hfew
  · rw [List.countP_replicate]
    rfl
  · rw [hpending]
    exact List.nodup_nil
  · intro item hitem
    rw [hpending] at hitem
    cases hitem
  · intro h
    rw [hclosed h]
    rfl
  · intro w hw hdone
    rw [hidle w hw] at hdone
    cases hdone
  · intro item hitem
    cases hidle _ hitem

/-- `Run` starts in a state with the invariant. -/
theorem invariant_run (hconfig : config.valid = true) (h : run config keys jobs = .ok m) :
    Invariant config keys jobs m := by
  unfold run at h
  split_ifs at h with hlimit hempty hkeys
  · obtain rfl := Except.ok.inj h
    have hjobs : jobs = [] := List.length_eq_zero_iff.mp hempty
    exact invariant_idle (Nat.zero_le _) (fun _ => hjobs) fun hne => absurd hjobs hne
  · obtain rfl := Except.ok.inj h
    refine invariant_idle (min_le_left _ _) (fun hclosed => nomatch hclosed) fun _ => ?_
    simp only [ScheduleConfig.valid, Bool.and_eq_true, decide_eq_true_eq] at hconfig
    omega

/-- A worker keeps the invariant. -/
theorem Invariant.worker (h : Invariant config keys jobs m) {n : Nat} {shared : Shared J V}
    (hworker : m.workers[n]? = some w) (hmove : Move config keys m.shared w shared w') :
    Invariant config keys jobs ⟨shared, m.workers.set n w'⟩ := by
  obtain ⟨rest, hperm, hset⟩ := exists_perm_set hworker
  have htokens := h.tokens.perm hperm.symm
  have hcounters := h.counters.perm hperm.symm
  have hplacement : Placement jobs m.shared (w :: rest) :=
    h.placement.of_perm (pendingJobs_perm hperm.symm) rfl rfl rfl fun v hv =>
      h.placement.done v (hperm.mem_iff.mpr hv)
  have hrefusals : Refusals m.shared (w :: rest) := fun item hitem =>
    h.refusals item (hperm.mem_iff.mpr hitem)
  have htokens' := htokens.move hmove
  have hplacement' := hplacement.move hmove
  refine ⟨fun _ hnil => ?_, htokens'.perm (hset w'), (hcounters.move htokens' hmove).perm (hset w'),
    ?_, h.written.move hplacement (fun item hw => hrefusals item (hw ▸ List.mem_cons_self)) hmove,
    fun item hitem => hrefusals.move hmove item ((hset w').mem_iff.mp hitem)⟩
  · have hnil : m.workers.set n w' = [] := hnil
    have hlength := (hset w').length_eq
    rw [hnil] at hlength
    cases hlength
  · exact hplacement'.of_perm (pendingJobs_perm (hset w')) rfl rfl rfl fun v hv =>
      hplacement'.done v ((hset w').mem_iff.mp hv)

/-- The dispatcher sends a job. -/
theorem Invariant.send (h : Invariant config keys jobs m) {job : J}
    (hjob : jobs[m.shared.next]? = some job) (hopen : m.shared.closed = false) :
    Invariant config keys jobs { m with
      shared := { m.shared with
        queue := m.shared.queue ++ [⟨m.shared.next, job⟩]
        next := m.shared.next + 1 } } := by
  have hplacement := h.placement
  have hlt : m.shared.next < jobs.length := (List.getElem?_eq_some_iff.mp hjob).1
  have hpending : (pendingJobs { m.shared with
      queue := m.shared.queue ++ [⟨m.shared.next, job⟩], next := m.shared.next + 1 }
      m.workers).Perm (⟨m.shared.next, job⟩ :: pendingJobs m.shared m.workers) := by
    unfold pendingJobs
    rw [List.append_assoc]
    exact List.perm_middle
  refine ⟨h.staffed, { h.tokens with }, { h.counters with }, ?_, { h.written with }, h.refusals⟩
  refine ⟨?_, ?_, ?_, fun i hi => hplacement.unsent i (le_of_lt hi), hlt, ?_, ?_⟩
  · refine (hpending.map IndexedJob.index).nodup_iff.mpr (List.nodup_cons.mpr ⟨?_, hplacement.once⟩)
    intro hmem
    obtain ⟨item, hitem, hindex⟩ := List.mem_map.mp hmem
    exact absurd (hplacement.sent item hitem).2.1 (not_lt.mpr (le_of_eq hindex.symm))
  · intro item hitem
    rcases List.mem_cons.mp (hpending.mem_iff.mp hitem) with rfl | hitem
    · exact ⟨hjob, Nat.lt_succ_self _, hplacement.unsent _ le_rfl⟩
    · obtain ⟨hsent, hindex, hunset⟩ := hplacement.sent item hitem
      exact ⟨hsent, Nat.lt_succ_of_lt hindex, hunset⟩
  · intro i hi
    by_cases hnew : i = m.shared.next
    · exact .inl ⟨_, hpending.mem_iff.mpr List.mem_cons_self, hnew.symm⟩
    · refine (hplacement.settled i (by dsimp only at hi; omega)).imp_left ?_
      rintro ⟨item, hitem, hindex⟩
      exact ⟨item, hpending.mem_iff.mpr (List.mem_cons_of_mem _ hitem), hindex⟩
  · intro hclosed
    rw [hopen] at hclosed
    cases hclosed
  · intro v hv hdone
    rw [(hplacement.done v hv hdone).1] at hopen
    cases hopen

/-- The dispatcher gives up after a cancellation. -/
theorem Invariant.abort (h : Invariant config keys jobs m) (hopen : m.shared.closed = false)
    (hcancelled : m.shared.cancelled = true) :
    Invariant config keys jobs { m with
      shared := { m.shared with
        results := fun i =>
          if m.shared.next ≤ i && i < jobs.length then .cancelled else m.shared.results i
        next := jobs.length
        closed := true } } := by
  have hplacement := h.placement
  -- below the next job nothing changes
  have hbelow : ∀ i < m.shared.next, (if (m.shared.next ≤ i && i < jobs.length : Bool) = true
      then Result.cancelled else m.shared.results i) = m.shared.results i := by
    intro i hi
    rw [if_neg (by simp; omega)]
  have hindex : ∀ i, m.shared.results i ≠ .unset → i < m.shared.next := by
    intro i hset
    by_contra hle
    exact hset (hplacement.unsent i (not_lt.mp hle))
  refine ⟨h.staffed, { h.tokens with }, { h.counters with }, ?_, ?_, h.refusals⟩
  · refine ⟨hplacement.once, ?_, ?_, ?_, le_rfl, fun _ => rfl, ?_⟩
    · intro item hitem
      obtain ⟨hsent, hlt, hunset⟩ := hplacement.sent item hitem
      refine ⟨hsent, lt_of_lt_of_le hlt hplacement.next_le, ?_⟩
      exact (hbelow _ hlt).trans hunset
    · intro i hi
      by_cases hlt : i < m.shared.next
      · refine (hplacement.settled i hlt).imp_right fun hset => ?_
        change (if _ then _ else _) ≠ _
        rw [hbelow i hlt]
        exact hset
      · refine .inr ?_
        change (if _ then _ else _) ≠ _
        rw [if_pos (by dsimp only at hi; simp; omega)]
        exact fun h => nomatch h
    · intro i hi
      change (if _ then _ else _) = _
      rw [if_neg (by dsimp only at hi; simp; omega)]
      exact hplacement.unsent i (le_trans hplacement.next_le hi)
    · intro v hv hdone
      rw [(hplacement.done v hv hdone).1] at hopen
      cases hopen
  · refine ⟨h.written.once, ?_, ?_, fun _ _ => hcancelled⟩
    · intro call hcall
      obtain ⟨hjob, hresult⟩ := h.written.calls call hcall
      refine ⟨hjob, (hbelow _ (hindex _ ?_)).trans hresult⟩
      rw [hresult]
      exact fun h => nomatch h
    · intro i value hresult
      change (if _ then _ else _) = _ at hresult
      split_ifs at hresult
      exact h.written.outcome i value hresult

/-- **Every step keeps the invariant.** -/
theorem Invariant.step {a : Action V} (h : Invariant config keys jobs m)
    (hstep : step config keys jobs m a = some m') : Invariant config keys jobs m' := by
  cases a with
  | cancel =>
    simp only [Probe.step] at hstep
    split_ifs at hstep
    obtain rfl := Option.some.inj hstep
    exact ⟨h.staffed, { h.tokens with }, { h.counters with }, { h.placement with },
      { h.written with cancelled := fun _ _ => rfl }, fun _ _ => rfl⟩
  | send =>
    simp only [Probe.step] at hstep
    split at hstep
    · cases hstep
    next job hjob =>
      split_ifs at hstep with hguard
      obtain rfl := Option.some.inj hstep
      rw [Bool.and_eq_true, Bool.not_eq_true'] at hguard
      exact h.send hjob hguard.1
  | abort =>
    simp only [Probe.step] at hstep
    split_ifs at hstep with hguard
    obtain rfl := Option.some.inj hstep
    rw [Bool.and_eq_true, Bool.and_eq_true, Bool.not_eq_true'] at hguard
    exact h.abort hguard.1.1 hguard.2
  | close =>
    simp only [Probe.step] at hstep
    split_ifs at hstep with hguard
    obtain rfl := Option.some.inj hstep
    rw [Bool.and_eq_true, Bool.not_eq_true', decide_eq_true_eq] at hguard
    refine ⟨h.staffed, { h.tokens with }, { h.counters with },
      { h.placement with closed := fun _ => hguard.2, done := ?_ }, { h.written with },
      h.refusals⟩
    intro v hv hdone
    rw [(h.placement.done v hv hdone).1] at hguard
    cases hguard.1
  | worker n action =>
    simp only [Probe.step] at hstep
    split at hstep
    · cases hstep
    next w hworker =>
      split at hstep
      · cases hstep
      next shared w' hmoved =>
        obtain rfl := Option.some.inj hstep
        exact h.worker hworker (move_of_workerStep hmoved)

/-! ## Progress -/

/-- The worker can do something. -/
def Enabled (config : ScheduleConfig) (keys : Keys J) (s : Shared J V) (w : Worker J) : Prop :=
  ∃ action, (workerStep config keys s w action).isSome = true

section Progress

variable [Nonempty V]

/-- A worker with a token of a target executes a job or gives the token back. -/
theorem Tokens.enabled_of_target (h : Tokens config keys s workers) (hw : w ∈ workers)
    {key : Bytes} (htoken : w.targetToken keys = some key) : Enabled config keys s w := by
  cases w with
  | running item =>
    obtain ⟨value⟩ : Nonempty V := inferInstance
    exact ⟨.finish value, rfl⟩
  | finished item =>
    have hpos := h.targets.pos hw rfl
    exact ⟨.releaseTarget, by simp only [workerStep, if_pos hpos]; rfl⟩
  | _ => cases htoken

/-- If a worker has a token of an endpoint, some worker can go on. -/
theorem Tokens.exists_enabled_of_endpoint (hconfig : 0 < config.perTarget.toNat)
    (h : Tokens config keys s workers) (hw : w ∈ workers) {key : Bytes}
    (htoken : w.endpointToken keys = some key) : ∃ v ∈ workers, Enabled config keys s v := by
  cases w with
  | holding item =>
    by_cases hroom : s.targets (keys.target item.job) < config.perTarget.toNat
    · exact ⟨_, hw, .acquireTarget, by simp only [workerStep, if_pos hroom]; rfl⟩
    · -- all tokens of the target are taken, so somebody has one
      obtain ⟨v, hv, hheld⟩ := h.targets.exists_holder (lt_of_lt_of_le hconfig (not_lt.mp hroom))
      exact ⟨v, hv, h.enabled_of_target hv hheld⟩
  | refused item =>
    have hpos := h.endpoints.pos hw rfl
    exact ⟨_, hw, .releaseRefused, by simp only [workerStep, if_pos hpos]; rfl⟩
  | running item | finished item => exact ⟨_, hw, h.enabled_of_target hw rfl⟩
  | releasing item =>
    have hpos := h.endpoints.pos hw rfl
    exact ⟨_, hw, .releaseEndpoint, by simp only [workerStep, if_pos hpos]; rfl⟩
  | _ => cases htoken

/-- If a worker has a job, some worker can go on. -/
theorem Tokens.exists_enabled (hendpoint : 0 < config.perEndpoint.toNat)
    (htarget : 0 < config.perTarget.toNat) (h : Tokens config keys s workers) (hw : w ∈ workers)
    (hidle : w ≠ .idle) (hdone : w ≠ .done) : ∃ v ∈ workers, Enabled config keys s v := by
  cases w with
  | idle => exact absurd rfl hidle
  | done => exact absurd rfl hdone
  | received item =>
    by_cases hroom : s.endpoints (keys.endpoint item.job) < config.perEndpoint.toNat
    · exact ⟨_, hw, .acquireEndpoint, by simp only [workerStep, if_pos hroom]; rfl⟩
    · obtain ⟨v, hv, hheld⟩ := h.endpoints.exists_holder
        (lt_of_lt_of_le hendpoint (not_lt.mp hroom))
      exact h.exists_enabled_of_endpoint htarget hv hheld
  | _ => exact h.exists_enabled_of_endpoint htarget hw rfl

omit [Nonempty V] in
theorem exists_step_of_enabled (hw : w ∈ m.workers) (h : Enabled config keys m.shared w) :
    ∃ a : Action V, a ≠ .cancel ∧ (step config keys jobs m a).isSome = true := by
  obtain ⟨n, hn⟩ := List.mem_iff_getElem?.mp hw
  obtain ⟨action, haction⟩ := h
  obtain ⟨⟨shared, w'⟩, hstep⟩ := Option.isSome_iff_exists.mp haction
  refine ⟨.worker n action, (fun h => nomatch h), ?_⟩
  simp only [Probe.step, hn, hstep]
  rfl

/-- **The machine is not stuck** before all goroutines are at their end. -/
theorem Invariant.exists_step (hconfig : config.valid = true) (h : Invariant config keys jobs m)
    (hfinal : ¬m.final) :
    ∃ a : Action V, a ≠ .cancel ∧ (Probe.step config keys jobs m a).isSome = true := by
  simp only [ScheduleConfig.valid, Bool.and_eq_true, decide_eq_true_eq] at hconfig
  by_cases hbusy : ∃ w ∈ m.workers, w ≠ .idle ∧ w ≠ .done
  · obtain ⟨w, hw, hidle, hdone⟩ := hbusy
    obtain ⟨v, hv, henabled⟩ := h.tokens.exists_enabled (by omega) (by omega) hw hidle hdone
    exact exists_step_of_enabled hv henabled
  -- otherwise all workers wait for a job or are at their end
  have hrest : ∀ w ∈ m.workers, w = .idle ∨ w = .done := by
    intro w hw
    by_contra hneither
    rw [not_or] at hneither
    exact hbusy ⟨w, hw, hneither⟩
  cases hclosed : m.shared.closed with
  | false =>
    by_cases hnext : m.shared.next = jobs.length
    · exact ⟨.close, (fun h => nomatch h), by simp [Probe.step, hclosed, hnext]⟩
    have hlt := lt_of_le_of_ne h.placement.next_le hnext
    by_cases hroom : m.shared.queue.length < config.queue.toNat
    · refine ⟨.send, (fun h => nomatch h), ?_⟩
      simp only [Probe.step, List.getElem?_eq_getElem hlt, hclosed, hroom]
      rfl
    · -- the queue is full, and nobody has left it yet
      obtain ⟨w, hw⟩ := List.exists_mem_of_ne_nil _
        (h.staffed (List.ne_nil_of_length_pos (lt_of_le_of_lt (Nat.zero_le _) hlt)))
      have hidle : w = .idle := by
        rcases hrest w hw with hidle | rfl
        · exact hidle
        · rw [(h.placement.done _ hw rfl).1] at hclosed
          cases hclosed
      obtain ⟨item, queue, hqueue⟩ := List.exists_cons_of_length_pos
        (lt_of_lt_of_le (by omega : 0 < config.queue.toNat) (not_lt.mp hroom))
      refine exists_step_of_enabled hw ⟨.receive, ?_⟩
      rw [hidle]
      simp only [workerStep, hqueue]
      rfl
  | true =>
    have hwaiting : ∃ w ∈ m.workers, w.isDone = false := by
      by_contra hall
      refine hfinal ⟨hclosed, fun w hw => ?_⟩
      by_contra hdone
      exact hall ⟨w, hw, by simpa using hdone⟩
    obtain ⟨w, hw, hdone⟩ := hwaiting
    have hidle : w = .idle := by
      rcases hrest w hw with hidle | rfl
      · exact hidle
      · cases hdone
    refine exists_step_of_enabled hw ?_
    rw [hidle]
    cases hqueue : m.shared.queue with
    | nil => exact ⟨.quit, by simp [workerStep, hclosed, hqueue]⟩
    | cons item queue => exact ⟨.receive, by simp only [workerStep, hqueue]; rfl⟩

end Progress

/-! ## Termination -/

/-- At most so many steps are left to a worker that receives no further job. -/
def Worker.remaining : Worker J → Nat
  | .done => 0
  | .idle => 1
  | .releasing _ | .refused _ => 2
  | .finished _ => 3
  | .running _ => 4
  | .holding _ => 5
  | .received _ => 6

/-- At most so many steps are left. -/
def Machine.remaining (jobs : List J) (m : Machine J V) : Nat :=
  7 * (jobs.length - m.shared.next) + 6 * m.shared.queue.length +
    (m.workers.map Worker.remaining).sum + (!m.shared.closed).toNat + (!m.shared.cancelled).toNat

theorem Move.remaining_lt (h : Move config keys s w s' w') :
    6 * s'.queue.length + w'.remaining < 6 * s.queue.length + w.remaining ∧
      s'.next = s.next ∧ s'.closed = s.closed ∧ s'.cancelled = s.cancelled := by
  cases h with
  | receive hqueue => exact ⟨by simp [hqueue, Worker.remaining]; omega, rfl, rfl, rfl⟩
  | _ => exact ⟨Nat.add_lt_add_left (by simp [Worker.remaining]) _, rfl, rfl, rfl⟩

theorem remaining_lt_of_step {a : Action V} (h : step config keys jobs m a = some m') :
    m'.remaining jobs < m.remaining jobs := by
  cases a with
  | worker n action =>
    simp only [step] at h
    split at h
    · cases h
    next w hworker =>
      split at h
      · cases h
      next shared w' hmoved =>
        obtain rfl := Option.some.inj h
        obtain ⟨rest, hperm, hset⟩ := exists_perm_set hworker
        have hlt := (move_of_workerStep hmoved).remaining_lt
        have hsum := (hperm.map Worker.remaining).sum_eq
        have hsum' := ((hset w').map Worker.remaining).sum_eq
        simp only [List.map_cons, List.sum_cons] at hsum hsum'
        grind [Machine.remaining]
  | _ => grind [step, Machine.remaining]

/-! ## The result -/

/-- When `Run` returns, every job has a result of its own. -/
theorem Invariant.results (h : Invariant config keys jobs m) (hfinal : m.final) {i : Nat} {job : J}
    (hjob : jobs[i]? = some job) :
    (∃ value, m.shared.results i = .outcome value ∧ (⟨i, job⟩, value) ∈ m.shared.calls) ∨
      (m.shared.results i = .cancelled ∧ m.shared.cancelled = true ∧
        ∀ call ∈ m.shared.calls, call.1.index ≠ i) := by
  obtain ⟨hclosed, hdone⟩ := hfinal
  have hlt : i < jobs.length := (List.getElem?_eq_some_iff.mp hjob).1
  -- nothing is pending any more
  have hpending : pendingJobs m.shared m.workers = [] := by
    have hqueue : m.shared.queue = [] := by
      obtain ⟨w, hw⟩ := List.exists_mem_of_ne_nil _
        (h.staffed (List.ne_nil_of_length_pos (lt_of_le_of_lt (Nat.zero_le _) hlt)))
      exact (h.placement.done w hw (hdone w hw)).2
    have hworkers : m.workers.filterMap Worker.pending = [] := by
      rw [List.filterMap_eq_nil_iff]
      intro w hw
      have hw' := hdone w hw
      cases w with
      | done => rfl
      | _ => cases hw'
    rw [pendingJobs, hqueue, hworkers]
    rfl
  have hset : m.shared.results i ≠ .unset := by
    rcases h.placement.settled i (h.placement.closed hclosed ▸ hlt) with ⟨item, hitem, -⟩ | hset
    · rw [hpending] at hitem
      cases hitem
    · exact hset
  cases hresult : m.shared.results i with
  | unset => exact absurd hresult hset
  | outcome value =>
    refine .inl ⟨value, rfl, ?_⟩
    obtain ⟨⟨⟨index, called⟩, found⟩, hcall, hindex⟩ := h.written.outcome i value hresult
    obtain ⟨hcalled, hfound⟩ := h.written.calls _ hcall
    dsimp only at hindex hcalled hfound
    subst hindex
    rw [hjob] at hcalled
    rw [hresult] at hfound
    obtain rfl := Option.some.inj hcalled
    injection hfound with hfound
    rw [hfound]
    exact hcall
  | cancelled =>
    refine .inr ⟨rfl, h.written.cancelled i hresult, fun call hcall hindex => ?_⟩
    obtain ⟨-, hfound⟩ := h.written.calls call hcall
    rw [hindex, hresult] at hfound
    cases hfound

end

/-- **Probes are scheduled within their bounds.**  In every state of every run of a valid
schedule, whatever the order of the goroutines and whenever the context is cancelled, at most
`Concurrency` jobs are executed, `PerEndpoint` of an endpoint and `PerTarget` of a target, and the
run is not stuck before it returns.  When it returns, each job was executed at most once, and
its result is the outcome of its own execution, or the error `cancelled` after a cancellation. -/
theorem bounded_scheduling {J V : Type} [Nonempty V] {config : ScheduleConfig} {keys : Keys J}
    {jobs : List J} {initial m : Machine J V} {trace : List (Machine J V × Action V)}
    (hconfig : config.valid = true) (hrun : run config keys jobs = .ok initial)
    (hexecution : Execution (step config keys jobs) initial trace m) :
    ((m.workers.countP fun w => w.executing.isSome) : Int) ≤ config.concurrency ∧
      (∀ key, ((m.workers.countP fun w => w.endpointExecuting keys = some key) : Int) ≤
        config.perEndpoint) ∧
      (∀ key, ((m.workers.countP fun w => w.targetExecuting keys = some key) : Int) ≤
        config.perTarget) ∧
      (¬m.final → ∃ a : Action V, a ≠ .cancel ∧ (step config keys jobs m a).isSome = true) ∧
      (m.final → (m.shared.calls.map fun call => call.1.index).Nodup ∧
        ∀ i job, jobs[i]? = some job →
          (∃ value, m.shared.results i = .outcome value ∧ (⟨i, job⟩, value) ∈ m.shared.calls) ∨
            (m.shared.results i = .cancelled ∧ m.shared.cancelled = true ∧
              ∀ call ∈ m.shared.calls, call.1.index ≠ i)) := by
  have h : Invariant config keys jobs m := hexecution.invariant
    (fun _ _ _ h hstep => h.step hstep) (invariant_run hconfig hrun)
  have hlimits := hconfig
  simp only [ScheduleConfig.valid, Bool.and_eq_true, decide_eq_true_eq] at hlimits
  refine ⟨?_, fun key => ?_, fun key => ?_, h.exists_step hconfig,
    fun hfinal => ⟨h.written.once, fun i job => h.results hfinal⟩⟩
  · have hle := le_trans (List.countP_le_length (p := fun w : Worker J => w.executing.isSome))
      h.counters.few
    omega
  · have hle := h.counters.endpointRunning_le h.tokens key
    rw [h.counters.endpointRunning key] at hle
    omega
  · have hle := h.counters.targetRunning_le h.tokens key
    rw [h.counters.targetRunning key] at hle
    omega

namespace Sample

/-- Jobs that are named by their endpoint and their target. -/
def keys : Keys (Bytes × Bytes) := ⟨Prod.fst, Prod.snd⟩

def jobs : List (Bytes × Bytes) := [(ascii "ef1_a", ascii "web"), (ascii "ef1_a", ascii "mail")]

/-- The first job is executed, and the second is refused after a cancellation. -/
def actions : List (Action Nat) :=
  [.send, .send, .close, .worker 0 .receive, .worker 0 .acquireEndpoint, .worker 1 .receive,
    .worker 0 .acquireTarget, .cancel, .worker 1 .cancelEndpoint, .worker 0 (.finish 7),
    .worker 0 .releaseTarget, .worker 0 .releaseEndpoint, .worker 0 .quit, .worker 1 .quit]

theorem bounded_scheduling_pair :
    ∃ initial trace m, run defaultScheduleConfig keys jobs = .ok initial ∧
      Execution (step defaultScheduleConfig keys jobs) initial trace m ∧
      trace.map Prod.snd = actions ∧ m.final ∧ m.shared.results 0 = .outcome 7 ∧
      m.shared.results 1 = .cancelled ∧ m.shared.cancelled = true := by
  have hend : (actions.foldlM (step defaultScheduleConfig keys jobs)
      ⟨{}, List.replicate 2 .idle⟩).map (fun m => (m.shared.closed, m.workers.map Worker.isDone,
        m.shared.results 0, m.shared.results 1)) =
      some (true, [true, true], .outcome 7, .cancelled) := by decide +kernel
  obtain ⟨m, hm, hvalues⟩ := Option.map_eq_some_iff.mp hend
  simp only [Prod.mk.injEq] at hvalues
  obtain ⟨hclosed, hdone, hfirst, hsecond⟩ := hvalues
  obtain ⟨trace, hexecution, hactions⟩ := Execution.of_foldlM hm
  have hrun : run defaultScheduleConfig keys jobs =
      .ok (⟨{}, List.replicate 2 .idle⟩ : Machine (Bytes × Bytes) Nat) := rfl
  have hfinal : m.final := by
    refine ⟨hclosed, fun w hw => ?_⟩
    have hmem : w.isDone ∈ [true, true] := hdone ▸ List.mem_map_of_mem hw
    simpa using hmem
  refine ⟨_, trace, m, hrun, hexecution, hactions, hfinal, hfirst, hsecond, ?_⟩
  obtain ⟨-, -, -, -, hresults⟩ := bounded_scheduling (by decide) hrun hexecution
  rcases (hresults hfinal).2 1 _ rfl with ⟨value, hvalue, -⟩ | ⟨-, hcancelled, -⟩
  · rw [hsecond] at hvalue
    cases hvalue
  · exact hcancelled

end Sample

/-- **Every run of the scheduler ends**, whatever the order of the goroutines and whenever the
context is cancelled: it has at most linearly many steps in the jobs. -/
theorem scheduling_terminates {J V : Type} {config : ScheduleConfig} {keys : Keys J}
    {jobs : List J} {initial m : Machine J V} {trace : List (Machine J V × Action V)}
    (hrun : run config keys jobs = .ok initial)
    (hexecution : Execution (step config keys jobs) initial trace m) :
    trace.length ≤ 7 * jobs.length + min config.concurrency.toNat jobs.length + 2 := by
  have hle : _ + m.remaining jobs ≤ _ := hexecution.length_le fun _ _ _ => remaining_lt_of_step
  refine (Nat.le_add_right _ _).trans (hle.trans ?_)
  unfold run at hrun
  split_ifs at hrun
  all_goals
    obtain rfl := Except.ok.inj hrun
    simp [Machine.remaining, Worker.remaining]
  omega

open Sample in
theorem scheduling_terminates_pair : ∃ trace m, Execution (step defaultScheduleConfig keys jobs)
    ⟨{}, List.replicate 2 .idle⟩ trace m ∧ trace.map Prod.snd = actions ∧ trace.length ≤ 18 := by
  obtain ⟨m, hm⟩ := Option.isSome_iff_exists.mp (by decide +kernel : (actions.foldlM
    (step defaultScheduleConfig keys jobs) ⟨{}, List.replicate 2 .idle⟩).isSome)
  obtain ⟨trace, h, hactions⟩ := Execution.of_foldlM hm
  exact ⟨trace, m, h, hactions, scheduling_terminates rfl h⟩

end Egressfox.Probe
