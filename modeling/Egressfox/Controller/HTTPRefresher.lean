import Egressfox.Lib.Execution
import Egressfox.Pool.Build

/-!
# Refreshing HTTP sources in the background

`HTTPRefresher` of `internal/controller/http_refresher.go`: the slots of the sources, the channel
of jobs and the workers.

One goroutine scans and inspects pools and dispatches jobs, and four workers run them.  What a
goroutine does under the mutex is one action here, except for `dispatch`: it sends to the channel
under the mutex, and workers receive without it, so a dispatch goes key by key and workers may
take jobs in between.  Everything that is read from the cluster and the cache is part of an
action.

A slot is marked active while a job for its key is under way.  The mark is lost with the slot when
the source disappears, so a source that reappears before its job is completed gets a slot without
the mark; nothing else goes wrong.
-/

namespace Egressfox.Controller

open Lib Pool

/-! ## Times -/

/-- `refreshInterval`. -/
def refreshInterval (value : Duration) : Duration :=
  if value < 30 * Duration.second || value > 24 * Duration.hour then 5 * Duration.minute else value

/-- `durationValue`. -/
def durationValue (value : Option Duration) : Duration := value.getD 0

/-- The 32-bit FNV-1a hash. -/
def fnv32a (text : Bytes) : Nat :=
  text.foldl (fun hash value => (hash ^^^ value.val) * 16777619 % 2 ^ 32) 2166136261

/-- `spread`. -/
def spread (key : Bytes) (window : Duration) : Duration :=
  int64 (window % 2 ^ 64 * (fnv32a key % 1000 : Nat) % 2 ^ 64 / 1000)

/-- The time to the next refresh of a source of a pool. -/
def refreshAfter (pool : ProxyPool) (key : Bytes) : Duration :=
  let interval := refreshInterval (durationValue pool.refreshInterval)
  interval + spread key (interval.tdiv 10)

/-! ## The refresher -/

/-- `refreshSlot`. -/
structure RefreshSlot where
  fingerprint : Digest
  next : Time
  active : Bool := false
  failure : String := ""
  lastChange : Time := 0
  pool : Option ProxyPool := none
  source : SubscriptionSource := ⟨[], none, none, .other [], false, false⟩
deriving DecidableEq

/-- `refreshJob`. -/
structure RefreshJob where
  pool : ProxyPool
  source : SubscriptionSource
  key : Bytes
  fingerprint : Digest
deriving DecidableEq

/-- `maxHTTPRefreshWorkers`, also the capacity of the channel. -/
def maxHTTPRefreshWorkers : Nat := 4

/-- The state of `HTTPRefresher`, its channel and its workers. -/
structure Refresher where
  slots : Assoc Bytes RefreshSlot := ∅
  /-- The jobs in the channel. -/
  work : List RefreshJob := []
  /-- The jobs of the workers. -/
  running : List RefreshJob := []
  /-- A dispatch under way: its time, and the keys it has still to look at. -/
  dispatching : Option (Time × List Bytes) := none

/-- The jobs that are dispatched and not completed. -/
def Refresher.inFlight (r : Refresher) : List RefreshJob := r.work ++ r.running

/-- `enqueue`, for a source of the pool that is resolved: the part under the mutex.  `cached` is
the time of validation of the entry that `LoadSourceCache` finds. -/
def enqueue (now : Time) (pool : ProxyPool) (desired : SubscriptionSource) (config : HTTPConfig)
    (cached : Option Time) (slots : Assoc Bytes RefreshSlot) : Assoc Bytes RefreshSlot :=
  let key := config.key
  let slot : RefreshSlot :=
    match slots.lookup key with
    | none =>
      let next := now + refreshAfter pool key
      let next :=
        match cached with
        | some validatedAt =>
          let due := validatedAt + refreshAfter pool key
          if !(due > now) then now + spread key (10 * Duration.second)
          else if due < next then due
          else next
        | none => now + spread key (10 * Duration.second)
      { fingerprint := config.fingerprint, next }
    | some slot =>
      if slot.fingerprint ≠ config.fingerprint then
        { slot with fingerprint := config.fingerprint, next := now, failure := "" }
      else slot
  slots.insert key { slot with pool := some pool, source := desired }

/-- One key of `dispatch`; `none` if the channel is full. -/
def dispatchKey (now : Time) (key : Bytes) (r : Refresher) : Option Refresher :=
  match r.slots.lookup key with
  | none => some r
  | some slot =>
    match slot.pool with
    | none => some r
    | some pool =>
      if slot.active || now < slot.next then some r
      else if r.work.length < maxHTTPRefreshWorkers then
        some { r with
          work := r.work ++ [⟨pool, slot.source, key, slot.fingerprint⟩]
          slots := r.slots.insert key
            { slot with active := true, next := now + refreshAfter pool key } }
      else none

/-- The result of a refresh is noted in the slot, if it is about the same source. -/
def noteResult (job : RefreshJob) (failed changed : Bool) (now : Time) (slot : RefreshSlot) :
    RefreshSlot :=
  if slot.fingerprint ≠ job.fingerprint then slot
  else if failed then { slot with failure := "RefreshFailed" }
  else
    { slot with
      failure := ""
      lastChange := if changed then now / Duration.second * Duration.second else slot.lastChange }

/-- The deferred part of `runJob` on the slot of the key. -/
def completeSlot (job : RefreshJob) (now : Time) (slot : RefreshSlot) : RefreshSlot :=
  let slot := { slot with active := false }
  match slot.pool with
  | none => slot
  | some pool =>
    if slot.fingerprint ≠ job.fingerprint then slot
    else
      let next := now + refreshAfter pool job.key
      if next > slot.next then { slot with next } else slot

/-- An update of the slot of a key, if there is one. -/
def updateSlot (slots : Assoc Bytes RefreshSlot) (key : Bytes) (f : RefreshSlot → RefreshSlot) :
    Assoc Bytes RefreshSlot :=
  match slots.lookup key with
  | none => slots
  | some slot => slots.insert key (f slot)

/-- What the goroutines do. -/
inductive Action where
  /-- `enqueue` looks at a source of a pool. -/
  | enqueue (now : Time) (pool : ProxyPool) (desired : SubscriptionSource) (config : HTTPConfig)
      (cached : Option Time)
  /-- `scan` deletes the slots without a source. -/
  | prune (live : List Bytes)
  /-- `inspect` deletes the slots of a pool that is not found. -/
  | removePool (namespace_ name : Bytes)
  /-- `inspect` deletes the slots of a pool that are without a source. -/
  | removeSources (uid : Bytes) (live : List Bytes)
  /-- `dispatch` takes the mutex and sorts the keys. -/
  | beginDispatch (now : Time)
  /-- `dispatch` looks at the next key, or releases the mutex. -/
  | dispatchNext
  /-- A worker receives a job. -/
  | take
  /-- `runJob` notes a result. -/
  | note (job : RefreshJob) (failed changed : Bool) (now : Time)
  /-- `runJob` ends. -/
  | complete (job : RefreshJob) (now : Time)

/-- A step of the refresher; `none` if the action is not possible. -/
def step (r : Refresher) : Action → Option Refresher
  | .enqueue now pool desired config cached =>
    if r.dispatching.isSome then none
    else some { r with slots := enqueue now pool desired config cached r.slots }
  | .prune live =>
    if r.dispatching.isSome then none
    else some { r with slots := r.slots.retain fun key _ => key ∈ live }
  | .removePool namespace_ name =>
    if r.dispatching.isSome then none
    else some { r with
      slots := r.slots.retain fun _ slot =>
        match slot.pool with
        | none => true
        | some pool => !(pool.namespace_ = namespace_ && pool.name = name) }
  | .removeSources uid live =>
    if r.dispatching.isSome then none
    else some { r with
      slots := r.slots.retain fun key _ => !(uid ++ ascii "/").isPrefixOf key || key ∈ live }
  | .beginDispatch now =>
    if r.dispatching.isSome then none
    else some { r with
      dispatching := some (now, sortSlice (fun a b => a < b) r.slots.keys) }
  | .dispatchNext =>
    match r.dispatching with
    | none => none
    | some (_, []) => some { r with dispatching := none }
    | some (now, key :: keys) =>
      match dispatchKey now key r with
      | none => some { r with dispatching := none }
      | some next => some { next with dispatching := some (now, keys) }
  | .take =>
    match r.work with
    | [] => none
    | job :: work =>
      if r.running.length < maxHTTPRefreshWorkers then
        some { r with work, running := r.running ++ [job] }
      else none
  | .note job failed changed now =>
    if r.dispatching.isSome || job ∉ r.running then none
    else some { r with slots := updateSlot r.slots job.key (noteResult job failed changed now) }
  | .complete job now =>
    if r.dispatching.isSome || job ∉ r.running then none
    else some { r with
      slots := updateSlot r.slots job.key (completeSlot job now)
      running := r.running.erase job }

/-! ## Single flight -/

/-- At most one job of a key is under way, and the slot of the key is active exactly if there is
one. -/
structure SingleFlight (r : Refresher) : Prop where
  unique : ∀ key, (r.inFlight.countP fun job => job.key = key) ≤ 1
  active : ∀ key slot, r.slots.lookup key = some slot →
    (slot.active = true ↔ ∃ job ∈ r.inFlight, job.key = key)

/-- The action creates no slot for a key with a job under way. -/
def Settled (r : Refresher) : Action → Prop
  | .enqueue _ _ _ config _ =>
    r.slots.lookup config.key = none → ∀ job ∈ r.inFlight, job.key ≠ config.key
  | _ => True

theorem singleFlight_initial : SingleFlight {} where
  unique := fun _ => Nat.zero_le 1
  active := by
    rintro key slot ⟨⟩

section

variable {r r' : Refresher}

/-- Slots may disappear and change, as long as the marks and the jobs stay. -/
theorem SingleFlight.of_marks (h : SingleFlight r) (hjobs : r'.inFlight.Perm r.inFlight)
    (hslots : ∀ key slot', r'.slots.lookup key = some slot' →
      ∃ slot, r.slots.lookup key = some slot ∧ slot'.active = slot.active) : SingleFlight r' where
  unique := by
    intro key
    rw [hjobs.countP_eq]
    exact h.unique key
  active := by
    intro key slot' hslot'
    obtain ⟨slot, hslot, hactive⟩ := hslots key slot' hslot'
    rw [hactive, h.active key slot hslot]
    exact exists_congr fun job => and_congr_left fun _ => hjobs.mem_iff.symm

theorem SingleFlight.of_retain (h : SingleFlight r) (p : Bytes → RefreshSlot → Bool) :
    SingleFlight { r with slots := r.slots.retain p } := by
  refine h.of_marks (List.Perm.refl _) fun key slot' hslot' => ?_
  obtain ⟨hslot, -⟩ := Assoc.lookup_retain.mp hslot'
  exact ⟨slot', hslot, rfl⟩

theorem lookup_updateSlot {slots : Assoc Bytes RefreshSlot} {key other : Bytes}
    {f : RefreshSlot → RefreshSlot} :
    (updateSlot slots key f).lookup other =
      if other = key then (slots.lookup key).map f else slots.lookup other := by
  unfold updateSlot
  cases hslot : slots.lookup key with
  | none =>
    split_ifs with hother
    · rw [hother, hslot]
      rfl
    · rfl
  | some slot =>
    dsimp only
    split_ifs with hother
    · rw [hother, AList.lookup_insert]
      rfl
    · rw [AList.lookup_insert_ne hother]

theorem completeSlot_active (job : RefreshJob) (now : Time) (slot : RefreshSlot) :
    (completeSlot job now slot).active = false := by
  unfold completeSlot
  dsimp only
  split
  · rfl
  · split_ifs <;> rfl

/-- A slot that exists keeps its mark in `enqueue`, and a new one is not active. -/
theorem lookup_enqueue {now : Time} {pool : ProxyPool} {desired : SubscriptionSource}
    {config : HTTPConfig} {cached : Option Time} {slots : Assoc Bytes RefreshSlot} {key : Bytes}
    {slot' : RefreshSlot}
    (h : (enqueue now pool desired config cached slots).lookup key = some slot') :
    (∃ slot, slots.lookup key = some slot ∧ slot'.active = slot.active) ∨
      key = config.key ∧ slots.lookup key = none ∧ slot'.active = false := by
  unfold enqueue at h
  dsimp only at h
  by_cases hkey : key = config.key
  · rw [hkey, AList.lookup_insert] at h
    obtain rfl := Option.some.inj h
    cases hslot : slots.lookup config.key with
    | none => exact .inr ⟨hkey, hkey ▸ hslot, rfl⟩
    | some slot =>
      refine .inl ⟨slot, hkey ▸ hslot, ?_⟩
      dsimp only
      split_ifs <;> rfl
  · rw [AList.lookup_insert_ne hkey] at h
    exact .inl ⟨slot', h, rfl⟩

/-- `enqueue` keeps the property unless it creates a slot for a job under way. -/
theorem singleFlight_enqueue_iff (h : SingleFlight r) {now : Time} {pool : ProxyPool}
    {desired : SubscriptionSource} {config : HTTPConfig} {cached : Option Time} :
    SingleFlight { r with slots := enqueue now pool desired config cached r.slots } ↔
      (r.slots.lookup config.key = none → ∀ job ∈ r.inFlight, job.key ≠ config.key) := by
  constructor
  · intro h' hnone job hjob hkey
    obtain ⟨slot', hslot'⟩ : ∃ slot', (enqueue now pool desired config cached r.slots).lookup
        config.key = some slot' := ⟨_, AList.lookup_insert _⟩
    have hactive : slot'.active = true := (h'.active _ slot' hslot').mpr ⟨job, hjob, hkey⟩
    rcases lookup_enqueue hslot' with ⟨slot, hslot, -⟩ | ⟨-, -, hidle⟩
    · rw [hnone] at hslot
      cases hslot
    · rw [hidle] at hactive
      cases hactive
  · intro hsettled
    refine ⟨h.unique, fun key slot' hslot' => ?_⟩
    rcases lookup_enqueue hslot' with ⟨slot, hslot, hactive⟩ | ⟨rfl, hnone, hidle⟩
    · rw [hactive]
      exact h.active key slot hslot
    · rw [hidle]
      refine iff_of_false Bool.false_ne_true ?_
      rintro ⟨job, hjob, hkey⟩
      exact hsettled hnone job hjob hkey

/-- What `dispatch` does with a key: nothing, or it sends a job and marks the slot, which was not
active. -/
theorem dispatchKey_cases {now : Time} {key : Bytes} (h : dispatchKey now key r = some r') :
    r' = r ∨ ∃ slot job slot', r.slots.lookup key = some slot ∧ slot.active = false ∧
      job.key = key ∧ slot'.active = true ∧
      r' = { r with work := r.work ++ [job], slots := r.slots.insert key slot' } := by
  unfold dispatchKey at h
  split at h
  · exact .inl (Option.some.inj h).symm
  next slot hslot =>
    split at h
    · exact .inl (Option.some.inj h).symm
    next pool hpool =>
      split_ifs at h with hskip hroom
      · exact .inl (Option.some.inj h).symm
      · have hidle : slot.active = false := by
          rw [Bool.or_eq_true, not_or] at hskip
          simpa using hskip.1
        exact .inr ⟨slot, ⟨pool, slot.source, key, slot.fingerprint⟩,
          { slot with active := true, next := now + refreshAfter pool key }, hslot, hidle, rfl, rfl,
          (Option.some.inj h).symm⟩

/-- A job is dispatched for a slot that is not active. -/
theorem SingleFlight.dispatch (h : SingleFlight r) {key : Bytes} {slot slot' : RefreshSlot}
    {job : RefreshJob} (hslot : r.slots.lookup key = some slot) (hidle : slot.active = false)
    (hkey : job.key = key) (hactive : slot'.active = true) :
    SingleFlight { r with work := r.work ++ [job], slots := r.slots.insert key slot' } := by
  have hjobs : Refresher.inFlight
      { r with work := r.work ++ [job], slots := r.slots.insert key slot' } =
        r.work ++ [job] ++ r.running := rfl
  have hnone : ∀ other ∈ r.inFlight, other.key ≠ key := by
    intro other hother hsame
    rw [(h.active key slot hslot).mpr ⟨other, hother, hsame⟩] at hidle
    cases hidle
  have hperm : (r.work ++ [job] ++ r.running).Perm (job :: r.inFlight) := by
    rw [List.append_assoc]
    exact List.perm_middle
  refine ⟨fun other => ?_, fun other found hfound => ?_⟩
  · rw [hjobs, hperm.countP_eq, List.countP_cons]
    by_cases hother : job.key = other
    · have hzero : (r.inFlight.countP fun job => job.key = other) = 0 := by
        rw [List.countP_eq_zero]
        intro candidate hcandidate
        simpa [← hother, hkey] using hnone candidate hcandidate
      rw [hzero]
      split_ifs <;> decide
    · simpa [hother] using h.unique other
  · rw [hjobs]
    have hmem : (∃ j ∈ r.work ++ [job] ++ r.running, j.key = other) ↔
        job.key = other ∨ ∃ j ∈ r.inFlight, j.key = other := by
      simp only [hperm.mem_iff, List.mem_cons, or_and_right, exists_or, exists_eq_left]
    rw [hmem]
    by_cases hother : other = key
    · rw [hother, AList.lookup_insert] at hfound
      obtain rfl := Option.some.inj hfound
      exact iff_of_true hactive (.inl (hkey.trans hother.symm))
    · rw [AList.lookup_insert_ne hother] at hfound
      rw [h.active other found hfound]
      constructor
      · exact .inr
      · rintro (hsame | hjob)
        · exact absurd (hsame.symm.trans hkey) hother
        · exact hjob

/-- A job is completed. -/
theorem SingleFlight.complete (h : SingleFlight r) {job : RefreshJob} (hjob : job ∈ r.running)
    (now : Time) :
    SingleFlight { r with
      slots := updateSlot r.slots job.key (completeSlot job now)
      running := r.running.erase job } := by
  have hperm : (r.work ++ r.running).Perm (job :: (r.work ++ r.running.erase job)) := by
    exact ((List.perm_cons_erase hjob).append_left r.work).trans List.perm_middle
  have hcount : ∀ key, (r.inFlight.countP fun j => j.key = key) =
      ((r.work ++ r.running.erase job).countP fun j => j.key = key) +
        if job.key = key then 1 else 0 := by
    intro key
    rw [Refresher.inFlight, hperm.countP_eq, List.countP_cons]
    simp
  -- the completed job was the only one of its key
  have hnone : ∀ j ∈ r.work ++ r.running.erase job, j.key ≠ job.key := by
    have hle := h.unique job.key
    rw [hcount, if_pos rfl] at hle
    have hzero : ((r.work ++ r.running.erase job).countP fun j => j.key = job.key) = 0 := by omega
    intro j hj
    simpa using List.countP_eq_zero.mp hzero j hj
  refine ⟨fun key => ?_, fun key slot' hslot' => ?_⟩
  · have hle := h.unique key
    rw [hcount] at hle
    exact le_trans (Nat.le_add_right _ _) hle
  · dsimp only at hslot'
    rw [lookup_updateSlot] at hslot'
    change slot'.active = true ↔ ∃ j ∈ r.work ++ r.running.erase job, j.key = key
    split_ifs at hslot' with hkey
    · obtain ⟨slot, -, rfl⟩ := Option.map_eq_some_iff.mp hslot'
      rw [completeSlot_active, hkey]
      refine iff_of_false Bool.false_ne_true ?_
      rintro ⟨j, hj, hsame⟩
      exact hnone j hj hsame
    · rw [h.active key slot' hslot']
      simp only [Refresher.inFlight, hperm.mem_iff, List.mem_cons, or_and_right, exists_or,
        exists_eq_left, or_iff_right (Ne.symm hkey)]

/-- **One step.**  From a state with single flight exactly the settled actions keep it. -/
theorem singleFlight_step_iff {a : Action} (h : SingleFlight r) (hstep : step r a = some r') :
    SingleFlight r' ↔ Settled r a := by
  cases a with
  | enqueue now pool desired config cached =>
    simp only [step] at hstep
    split_ifs at hstep
    obtain rfl := Option.some.inj hstep
    exact singleFlight_enqueue_iff h
  | prune live | removePool namespace_ name | removeSources uid live =>
    simp only [step] at hstep
    split_ifs at hstep
    obtain rfl := Option.some.inj hstep
    exact iff_of_true (h.of_retain _) trivial
  | beginDispatch now =>
    simp only [step] at hstep
    split_ifs at hstep
    obtain rfl := Option.some.inj hstep
    exact iff_of_true ⟨h.unique, h.active⟩ trivial
  | dispatchNext =>
    refine iff_of_true ?_ trivial
    simp only [step] at hstep
    split at hstep
    · cases hstep
    · obtain rfl := Option.some.inj hstep
      exact ⟨h.unique, h.active⟩
    · split at hstep
      · obtain rfl := Option.some.inj hstep
        exact ⟨h.unique, h.active⟩
      next next hnext =>
        obtain rfl := Option.some.inj hstep
        rcases dispatchKey_cases hnext with
          rfl | ⟨slot, job, slot', hslot, hidle, hkey, hactive, rfl⟩
        · exact ⟨h.unique, h.active⟩
        · have hsent := h.dispatch hslot hidle hkey hactive
          exact ⟨hsent.unique, hsent.active⟩
  | take =>
    refine iff_of_true ?_ trivial
    simp only [step] at hstep
    split at hstep
    · cases hstep
    next job work hwork =>
      split_ifs at hstep
      obtain rfl := Option.some.inj hstep
      refine h.of_marks ?_ fun key slot' hslot' => ⟨slot', hslot', rfl⟩
      rw [Refresher.inFlight, Refresher.inFlight, hwork, ← List.append_assoc]
      exact (List.perm_append_singleton job (work ++ r.running))
  | note job failed changed now =>
    refine iff_of_true ?_ trivial
    simp only [step] at hstep
    split_ifs at hstep
    obtain rfl := Option.some.inj hstep
    refine h.of_marks (List.Perm.refl _) fun key slot' hslot' => ?_
    dsimp only at hslot'
    rw [lookup_updateSlot] at hslot'
    split_ifs at hslot' with hkey
    · obtain ⟨slot, hslot, rfl⟩ := Option.map_eq_some_iff.mp hslot'
      refine ⟨slot, hkey ▸ hslot, ?_⟩
      unfold noteResult
      split_ifs <;> rfl
    · exact ⟨slot', hslot', rfl⟩
  | complete job now =>
    refine iff_of_true ?_ trivial
    simp only [step] at hstep
    split_ifs at hstep with hguard
    obtain rfl := Option.some.inj hstep
    rw [Bool.or_eq_true, not_or] at hguard
    exact h.complete (by simpa using hguard.2) now

end

/-- **Refreshes are single-flight as far as no slot is created for a job under way.**  Throughout
a run at most one job of a key is under way, and active slots are those with a job, if and only
if no step of the run creates a slot for a key that has a job under way. -/
theorem single_flight_iff {trace : List (Refresher × Action)} {final : Refresher}
    (h : Execution step {} trace final) :
    Execution.Throughout SingleFlight trace final ↔ ∀ point ∈ trace, Settled point.1 point.2 :=
  h.throughout_iff (fun _ _ _ hr hstep => singleFlight_step_iff hr hstep) singleFlight_initial

namespace Sample

def source : SubscriptionSource :=
  ⟨ascii "a", none, some { urlSecretRef := ⟨ascii "secret", ascii "url"⟩ }, .uriList, false, false⟩

def pool : ProxyPool :=
  ⟨ascii "default", ascii "pool", ascii "uid", 1, ascii "1", [source], false, none⟩

def config : HTTPConfig := ⟨pool.cacheKey source, Digest.zero, pool.sourceName source, []⟩

def enqueueAt (seconds : Int) : Action :=
  .enqueue (seconds * Duration.second) pool source config none

/-- The source is found, and its job is dispatched and taken by a worker. -/
def firstRefresh : List Action :=
  [enqueueAt 0, .beginDispatch (10 * Duration.second), .dispatchNext, .dispatchNext, .take]

/-- The job is completed. -/
def wholeRefresh : List Action :=
  firstRefresh ++
    [.complete ⟨pool, source, config.key, config.fingerprint⟩ (11 * Duration.second)]

/-- The refresh of a source from its discovery to its end. -/
theorem single_flight_iff_refresh :
    ∃ trace final, Execution step {} trace final ∧ trace.map Prod.snd = wholeRefresh ∧
      (Execution.Throughout SingleFlight trace final ↔
        ∀ point ∈ trace, Settled point.1 point.2) := by
  obtain ⟨final, hfinal⟩ : ∃ final, wholeRefresh.foldlM step {} = some final :=
    Option.isSome_iff_exists.mp (by decide +kernel)
  obtain ⟨trace, hrun, hactions⟩ := Execution.of_foldlM hfinal
  exact ⟨trace, final, hrun, hactions, single_flight_iff hrun⟩

/-- The source is removed from the pool and added again while its job runs. -/
def reappearance : List Action :=
  firstRefresh ++ [.removeSources (ascii "uid") [], .enqueue (12 * Duration.second)
    { pool with generation := 3, resourceVersion := ascii "3" } source config none]

def secondDispatch : List Action :=
  reappearance ++ [.beginDispatch (22 * Duration.second), .dispatchNext, .dispatchNext, .take]

/-- The slot of the source that is added again is not active although a job runs, and then a
second job is dispatched. -/
theorem second_job_dispatched :
    (∃ trace final, Execution step {} trace final ∧ trace.map Prod.snd = reappearance ∧
      final.inFlight.map RefreshJob.key = [config.key] ∧
      (final.slots.lookup config.key).map RefreshSlot.active = some false) ∧
    ∃ trace final, Execution step {} trace final ∧ trace.map Prod.snd = secondDispatch ∧
      final.inFlight.map RefreshJob.key = [config.key, config.key] := by
  have hslot : (reappearance.foldlM step {}).map (fun r => (r.inFlight.map RefreshJob.key,
      (r.slots.lookup config.key).map RefreshSlot.active)) =
      some ([config.key], some false) := by decide +kernel
  have htwo : (secondDispatch.foldlM step {}).map (fun r => r.inFlight.map RefreshJob.key) =
      some [config.key, config.key] := by decide +kernel
  constructor
  · obtain ⟨final, hfinal, hvalues⟩ := Option.map_eq_some_iff.mp hslot
    obtain ⟨trace, hrun, hactions⟩ := Execution.of_foldlM hfinal
    exact ⟨trace, final, hrun, hactions, (Prod.mk.inj hvalues).1, (Prod.mk.inj hvalues).2⟩
  · obtain ⟨final, hfinal, hvalues⟩ := Option.map_eq_some_iff.mp htwo
    obtain ⟨trace, hrun, hactions⟩ := Execution.of_foldlM hfinal
    exact ⟨trace, final, hrun, hactions, hvalues⟩

end Sample

end Egressfox.Controller
