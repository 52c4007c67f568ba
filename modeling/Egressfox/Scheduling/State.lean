import Egressfox.Artifact.Receipt
import Egressfox.Lib.Assoc
import Egressfox.Selection.Model

/-!
# Probe scheduling

The shared scheduling state of one probe context, in `internal/operator/pipeline.go`: the
round, the maintained cohort, the endpoints M5 rejected and every Gateway's demand.  Each
method of `Pipeline` holds the lock from its first to its last access, so it is a function
on the state; `resolveUncertain` releases the lock while it reads the output, and its
second half is a function of its own.

The context is fixed: its name gives the budget, and whether a record is compatible with
its engine profile is part of the `Catalog`.  A map of booleans is the list of its keys.
-/

namespace Egressfox.Scheduling

open Lib Artifact Selection

/-- What scheduling reads of a record: the text of its endpoint ID, and whether
`engine.CheckEndpoint` accepts its configuration for the profile of the context. -/
structure Catalog (R : Type) where
  id : R → Bytes
  compatible : R → Bool

/-! ## Budgets -/

def exploreMin : Int := 2

/-- `evidencePolicy`. -/
def evidencePolicy : Policy := defaultPolicy .adaptive

/-- `roundBudget`: 64 jobs in the default context, 30 in a named one. -/
def roundBudget (name : Bytes) : Int := if name = ascii "default" then 64 else 30

/-- `cohortCapacity`. -/
def cohortCapacity (name : Bytes) : Int := roundBudget name - exploreMin * evidencePolicy.minSamples

def requeueJitterPermille : Int := 100

def minProbeCadence : Duration := 30 * Duration.second

def probeStateTTL : Duration := 24 * Duration.hour

/-- `probeCadence`. -/
def probeCadence (policy : Policy) : Duration :=
  let cadence := policy.freshness
  let cadence :=
    if policy.minSamples > 1 then
      min cadence ((policy.evidenceWindow * 1000).tdiv
        (policy.minSamples * (1000 + requeueJitterPermille)))
    else cadence
  max cadence minProbeCadence

/-! ## State -/

/-- `probeDemand`.  `uncertain` is absent when the slice is nil. -/
structure Demand where
  selected : List Bytes
  seen : Time
  pending : Bool
  uncertain : Option (List Bytes)
  intended : Option Receipt
  attempt : Nat
deriving DecidableEq

/-- The zero value. -/
def Demand.zero : Demand := ⟨[], 0, false, none, none, 0⟩

/-- The endpoints a demand names. -/
def Demand.ids (demand : Demand) : List Bytes := demand.selected ++ demand.uncertain.getD []

/-- What happened to members of the cohort and to demands.  The source keeps no such
history; here it only serves to state what may be lost. -/
inductive Loss (R : Type) where
  /-- The endpoint left the cohort in a round over these records. -/
  | vanished (id : Bytes) (records : List R)
  /-- The endpoint yielded its slot in the cohort. -/
  | displaced (id : Bytes)
  /-- The endpoint was dropped from this Gateway's demand. -/
  | forgotten (gateway : Bytes) (id : Bytes)
  /-- The Gateway's demand expired. -/
  | expired (gateway : Bytes)

/-- `probeState`, with the history of losses, the latest first. -/
structure ProbeState (R : Type) where
  untilAt : Time
  round : Nat
  cursor : Nat
  cohort : List Bytes
  rejected : List Bytes
  demand : Assoc Bytes Demand
  overloaded : Bool
  attempts : Nat
  seen : Time
  losses : List (Loss R)

/-- The zero value. -/
def ProbeState.zero {R : Type} : ProbeState R := ⟨0, 0, 0, [], [], ∅, false, 0, 0, []⟩

variable {R T : Type}

namespace ProbeState

/-- `probeState.protected`. -/
def isProtected (s : ProbeState R) (id : Bytes) : Bool :=
  id ∉ s.rejected && Assoc.any (fun _ demand => id ∈ demand.ids) s.demand

/-- A demand without one endpoint. -/
def without (id : Bytes) (demand : Demand) : Demand :=
  { demand with
    selected := demand.selected.filter (· ≠ id)
    uncertain := demand.uncertain.map fun ids => ids.filter (· ≠ id) }

/-- `probeState.forget`. -/
def forget (s : ProbeState R) (id : Bytes) : ProbeState R :=
  { s with
    demand := Assoc.mapValues (without id) s.demand
    losses := (s.demand.entries.filter fun entry => id ∈ entry.2.ids).map
      (fun entry => .forgotten entry.1 id) ++ s.losses }

/-- The member that yields its slot: the oldest that M5 rejected, and for a selected
endpoint otherwise the oldest that is not protected. -/
def victim (s : ProbeState R) (selected : Bool) : Option Bytes :=
  match s.cohort.find? (· ∈ s.rejected) with
  | some id => some id
  | none => if selected then s.cohort.find? fun id => !s.isProtected id else none

/-- Take a member out of the cohort. -/
def evict (s : ProbeState R) (id : Bytes) : ProbeState R :=
  let s := if id ∈ s.rejected then s.forget id else s
  { s with
    rejected := s.rejected.filter (· ≠ id)
    cohort := s.cohort.erase id
    losses := .displaced id :: s.losses }

/-- `probeState.admit`. -/
def admitID (s : ProbeState R) (id : Bytes) (capacity : Int) (selected : Bool) : ProbeState R :=
  if id ∈ s.cohort then s
  else if s.cohort.length ≥ capacity then
    match s.victim selected with
    | none => s
    | some evicted =>
      let s := s.evict evicted
      { s with cohort := s.cohort ++ [id] }
  else { s with cohort := s.cohort ++ [id] }

/-- `probeState.observeVerdicts`. -/
def observeVerdicts (s : ProbeState R) (decision : Decision R) : ProbeState R :=
  { s with
    rejected := (decision.explanations.filter fun explanation =>
      explanation.endpointID.string ∈ s.cohort &&
        (explanation.reason = .failureStreak || explanation.reason = .unreliable)).map
      fun explanation => explanation.endpointID.string }

end ProbeState

/-! ## Rounds -/

/-- `probe.Job`. -/
structure Job (R T : Type) where
  record : R
  target : T
deriving DecidableEq

/-- `probeRound`. -/
structure Round (R T : Type) where
  id : Nat
  explore : List (Job R T)
  maintain : List (Job R T)
  cursor : Nat

/-- Whether exploration takes a record. -/
def explorable (C : Catalog R) (skip : List Bytes) (record : R) : Bool :=
  C.id record ∉ skip && C.compatible record

/-- The loop of `nextProbeBatch`, with the number of records left to scan. -/
def scanBatch (C : Catalog R) (records : List R) (start : Nat) (limit : Int) (skip : List Bytes) :
    Nat → Nat → List R → List R × Nat
  | 0, scanned, taken => (taken, scanned)
  | left + 1, scanned, taken =>
    if taken.length < limit then
      match records[(start + scanned) % records.length]? with
      | none => (taken, scanned)
      | some record =>
        scanBatch C records start limit skip left (scanned + 1)
          (if explorable C skip record then taken ++ [record] else taken)
    else (taken, scanned)

/-- `nextProbeBatch`: the records to explore and the next position. -/
def nextProbeBatch (C : Catalog R) (records : List R) (start : Nat) (limit : Int)
    (skip : List Bytes) : List R × Nat :=
  let start := if start ≥ records.length then 0 else start
  let (taken, scanned) := scanBatch C records start limit skip records.length 0 []
  if records.length > 0 then (taken, (start + scanned) % records.length) else (taken, 0)

/-- The map of compatible records: of two with the same ID the later one is kept. -/
def compatibleRecord (C : Catalog R) (records : List R) (id : Bytes) : Option R :=
  (records.reverse.filter C.compatible).find? fun record => C.id record = id

/-- The members of the cohort that have a compatible record. -/
def keptCohort (C : Catalog R) (records : List R) (cohort : List Bytes) : List Bytes :=
  cohort.filter fun id => (compatibleRecord C records id).isSome

/-- The losses of a round: the members without a compatible record. -/
def vanishedFrom (C : Catalog R) (records : List R) (cohort : List Bytes) : List (Loss R) :=
  (cohort.filter fun id => (compatibleRecord C records id).isNone).map
    fun id => .vanished id records

/-- The jobs for a list of members. -/
def jobsFor (C : Catalog R) (records : List R) (target : T) (ids : List Bytes) : List (Job R T) :=
  (ids.filterMap (compatibleRecord C records)).map fun record => ⟨record, target⟩

/-- The maintenance jobs: the protected members come last. -/
def maintainJobs (C : Catalog R) (s : ProbeState R) (records : List R) (target : T) :
    List (Job R T) :=
  let kept := keptCohort C records s.cohort
  jobsFor C records target (kept.filter fun id => !s.isProtected id) ++
    jobsFor C records target (kept.filter fun id => s.isProtected id)

/-- How many records may be explored next to the maintenance jobs. -/
def exploreLimit (name : Bytes) (maintained : Nat) : Int :=
  max exploreMin ((roundBudget name - maintained).tdiv evidencePolicy.minSamples)

/-- `Pipeline.budgetedJobs`. -/
def budgetedJobs (C : Catalog R) (name : Bytes) (probes : Option (ProbeState R)) (records : List R)
    (target : T) (now : Time) (refresh : Duration) : ProbeState R × Option (Round R T) :=
  let s := { probes.getD .zero with seen := now }
  if now < s.untilAt then (s, none)
  else
    let window := probeCadence evidencePolicy
    let window := if refresh > 0 then min window refresh else window
    let round := (s.round + 1) % 2 ^ 64
    let kept := keptCohort C records s.cohort
    let maintain := maintainJobs C s records target
    let batch := nextProbeBatch C records s.cursor (exploreLimit name maintain.length) kept
    let explore := (List.replicate evidencePolicy.minSamples.toNat
      (batch.1.map fun record => (⟨record, target⟩ : Job R T))).flatten
    ({ s with
        untilAt := now + window
        round := round
        cursor := batch.2
        cohort := kept
        losses := vanishedFrom C records s.cohort ++ s.losses },
      some ⟨round, explore, maintain, s.cursor⟩)

/-- `Pipeline.abandonRound`. -/
def abandonRound (s : ProbeState R) (round : Round R T) : ProbeState R :=
  if s.round = round.id then { s with untilAt := 0, cursor := round.cursor } else s

/-- `Pipeline.completeRound`. -/
def completeRound (s : ProbeState R) (round : Round R T) (overloaded : Bool) : ProbeState R :=
  if s.round = round.id then { s with overloaded := overloaded } else s

/-- `Pipeline.expireProbeStatesLocked` at the end of a `budgetedJobs`, for one context: one that
was not visited for long is deleted. -/
def expireProbeStates (probes : Option (ProbeState R)) (now : Time) : Option (ProbeState R) :=
  probes.filter fun s => !decide (now - s.seen > probeStateTTL)

/-- The verdict of one probe: `Err == nil`, and whether the observation is successful. -/
structure ProbeResult where
  completed : Bool
  successful : Bool
deriving DecidableEq

/-- `Pipeline.recordProbeResults`. -/
def recordProbeResults (C : Catalog R) (name : Bytes) (s : ProbeState R) (jobs : List (Job R T))
    (results : List ProbeResult) : ProbeState R :=
  (jobs.zip results).foldl (fun s (job, result) =>
    if result.completed && result.successful then
      s.admitID (C.id job.record) (cohortCapacity name) false
    else s) s

/-! ## Demand -/

/-- `Pipeline.touchDemand` in this context. -/
def touchDemand (s : ProbeState R) (gateway : Bytes) (now : Time) : ProbeState R :=
  let demand :=
    match s.demand.lookup gateway with
    | some own => if own.pending then s.demand else s.demand.insert gateway { own with seen := now }
    | none => s.demand
  let expired := fun d : Demand =>
    !d.pending && decide (now - d.seen > evidencePolicy.evidenceWindow)
  { s with
    demand := Assoc.retain (fun _ d => !expired d) demand
    losses := (demand.entries.filter fun entry => expired entry.2).map
      (fun entry => .expired entry.1) ++ s.losses }

/-- `Pipeline.touchDemand` in another context. -/
def leaveDemand (s : ProbeState R) (gateway : Bytes) : ProbeState R :=
  { s with demand := s.demand.erase gateway }

/-- `selectionReservation`. -/
structure Reservation where
  gateway : Bytes
  previous : Demand
  hadPrevious : Bool
deriving DecidableEq

/-- Why a reservation is refused. -/
inductive Refusal where
  /-- `errProbeCapacity`. -/
  | probeCapacity
  /-- `errPublicationUnresolved`. -/
  | publicationUnresolved
deriving DecidableEq, Repr

/-- The endpoints a Gateway's demand needs maintained next to a new reservation. -/
def neededOf (s : ProbeState R) (gateway other : Bytes) (demand : Demand) : List Bytes :=
  demand.selected.filter (fun id =>
    (other ≠ gateway && demand.pending) || (id ∈ s.cohort && id ∉ s.rejected)) ++
  (demand.uncertain.getD []).filter fun id => id ∈ s.cohort && id ∉ s.rejected

/-- The endpoints that have to be maintained if a selection is reserved. -/
def needed (s : ProbeState R) (gateway : Bytes) (selected : List Bytes) : List Bytes :=
  (s.demand.entries.flatMap (fun entry => neededOf s gateway entry.1 entry.2) ++ selected).dedup

/-- `Pipeline.reserveSelection`.  The verdicts are recorded even if it refuses. -/
def reserveSelection (C : Catalog R) (name : Bytes) (s : ProbeState R) (gateway : Bytes)
    (decision : Decision R) (now : Time) : ProbeState R × Except Refusal Reservation :=
  let s := s.observeVerdicts decision
  let selected := decision.selected.map C.id
  let own := s.demand.lookup gateway
  if (own.getD .zero).uncertain.isSome then (s, .error .publicationUnresolved)
  else if (needed s gateway selected).length > cohortCapacity name then (s, .error .probeCapacity)
  else
    let previous := own.getD .zero
    ({ s with
        demand := s.demand.insert gateway
          { previous with selected := selected, seen := now, pending := true } },
      .ok ⟨gateway, previous, own.isSome⟩)

/-- `Pipeline.commitSelection`. -/
def commitSelection (name : Bytes) (s : ProbeState R) (reservation : Reservation) : ProbeState R :=
  match s.demand.lookup reservation.gateway with
  | none => s
  | some demand =>
    if !demand.pending then s
    else
      let settled := { demand with pending := false, uncertain := none, intended := none }
      demand.selected.foldl (fun s id => s.admitID id (cohortCapacity name) true)
        { s with demand := s.demand.insert reservation.gateway settled }

/-- `Pipeline.holdUncertain`. -/
def holdUncertain (name : Bytes) (s : ProbeState R) (reservation : Reservation)
    (intended : Option Receipt) (now : Time) : ProbeState R :=
  match s.demand.lookup reservation.gateway with
  | none => s
  | some demand =>
    if !demand.pending then s
    else
      let attempts := (s.attempts + 1) % 2 ^ 64
      let held := { reservation.previous with
        uncertain := some demand.selected
        intended := intended
        attempt := attempts
        seen := now
        pending := false }
      demand.selected.foldl (fun s id => s.admitID id (cohortCapacity name) true)
        { s with
          attempts := attempts
          demand := s.demand.insert reservation.gateway held }

/-- The second half of `Pipeline.resolveUncertain`, after the output has been read. -/
def settleUncertain (s : ProbeState R) (gateway : Bytes) (attempt : Nat) (written : Bool) :
    ProbeState R :=
  match s.demand.lookup gateway with
  | none => s
  | some demand =>
    match demand.uncertain with
    | none => s
    | some ids =>
      if demand.pending || demand.attempt ≠ attempt then s
      else
        { s with
          demand := s.demand.insert gateway { demand with
            selected := if written then ids else demand.selected
            uncertain := none
            intended := none } }

/-- `Pipeline.resolveUncertain`.  Reading the output may fail. -/
def resolveUncertain (s : ProbeState R) (gateway : Bytes)
    (published : Option Receipt → Option Bool) : ProbeState R :=
  match s.demand.lookup gateway with
  | none => s
  | some demand =>
    if demand.pending || demand.uncertain.isNone then s
    else
      match published demand.intended with
      | none => s
      | some written => settleUncertain s gateway demand.attempt written

/-- `Pipeline.releaseSelection`. -/
def releaseSelection (s : ProbeState R) (reservation : Reservation) : ProbeState R :=
  match s.demand.lookup reservation.gateway with
  | none => s
  | some demand =>
    if !demand.pending then s
    else if reservation.hadPrevious then
      { s with demand := s.demand.insert reservation.gateway reservation.previous }
    else { s with demand := s.demand.erase reservation.gateway }

/-- A record is named by as many zeros. -/
def Sample.named : Catalog Nat := ⟨fun n => List.replicate n 0, fun _ => true⟩

end Egressfox.Scheduling
