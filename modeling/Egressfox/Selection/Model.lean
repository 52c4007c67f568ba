import Egressfox.Observation.Model
import Egressfox.Lib.Sort
import Egressfox.Lib.Text

/-!
# The selection algorithm

`internal/selection/selection.go`: policies, the persisted state, the evaluation of
one candidate and `Select` with its phases.

What the package takes from elsewhere is collected in `Primitives`: the identity of
a record (the only thing `Select` reads of it), SHA-256 and the floating-point part
of the Wilson lower bound.

`Select` is written phase by phase: `carried` is the previous state when it is
usable, `survey` evaluates the sorted candidates, `keepCooldowns`, `retain`, `fill`
and `optimize` are the loops that follow, and `conclude` puts the decision together.
-/

namespace Egressfox.Selection

open Lib Endpoint Observation

/-! ## Policies -/

/-- `selection.Strategy`; `other` stands for every value that names no strategy. -/
inductive Strategy where
  | static
  | lowestLatency
  | adaptive
  | other (code : Byte)
deriving DecidableEq, Repr

def Strategy.code : Strategy → Int
  | .static => 1
  | .lowestLatency => 2
  | .adaptive => 3
  | .other code => code.val

/-- `selection.Policy`. -/
structure Policy where
  strategy : Strategy
  topN : Int
  evidenceWindow : Duration
  freshness : Duration
  minSamples : Int
  minSuccessPermille : Int
  failureStreak : Int
  recoverySuccesses : Int
  residence : Duration
  cooldown : Duration
  requiredImprovementPermille : Int
deriving DecidableEq, Repr

def defaultPolicy (strategy : Strategy) : Policy where
  strategy := strategy
  topN := 1
  evidenceWindow := 30 * Duration.minute
  freshness := 5 * Duration.minute
  minSamples := 3
  minSuccessPermille := 600
  failureStreak := 2
  recoverySuccesses := 3
  residence := 10 * Duration.minute
  cooldown := 15 * Duration.minute
  requiredImprovementPermille := 100

/-- `Policy.Validate`. -/
def Policy.validate (policy : Policy) : Except String Unit :=
  match policy.strategy with
  | .other _ => .error "invalid selection strategy"
  | _ =>
    if policy.topN < 1 ∨ policy.topN > 10000 ∨
        policy.minSamples < 1 ∨ policy.minSamples > 512 ∨
        policy.minSuccessPermille < 1 ∨ policy.minSuccessPermille > 1000 ∨
        policy.failureStreak < 1 ∨ policy.failureStreak > 512 ∨
        policy.recoverySuccesses < 1 ∨ policy.recoverySuccesses > 512 ∨
        policy.evidenceWindow ≤ 0 ∨ policy.evidenceWindow > 30 * 24 * Duration.hour ∨
        policy.freshness ≤ 0 ∨ policy.freshness > policy.evidenceWindow ∨
        policy.residence < 0 ∨ policy.residence > 7 * 24 * Duration.hour ∨
        policy.cooldown < 0 ∨ policy.cooldown > 30 * 24 * Duration.hour ∨
        policy.requiredImprovementPermille < 0 ∨
        policy.requiredImprovementPermille ≥ 1000 then
      .error "invalid selection policy bounds"
    else .ok ()

def algorithmVersion : Bytes := ascii "adaptive/v1"

/-- The bytes `policyFingerprint` hashes. -/
def policyMaterial (policy : Policy) : Bytes :=
  algorithmVersion ++
    ([policy.strategy.code, policy.topN, policy.evidenceWindow, policy.freshness,
      policy.minSamples, policy.minSuccessPermille, policy.failureStreak,
      policy.recoverySuccesses, policy.residence, policy.cooldown,
      policy.requiredImprovementPermille] : List Int).flatMap
        fun value => bigEndian 8 (value % 2 ^ 64).toNat

/-! ## Context and state -/

/-- `selection.Context`. -/
structure Context where
  target : TargetRef
  vantage : Bytes
  kind : Kind
  profile : Artifact.Profile
deriving DecidableEq, Repr

/-- The check of `NewContext`, which otherwise only pairs up its arguments. -/
def Context.check (context : Context) : Except String Unit :=
  if context.target.id = [] ∨ context.vantage = [] ∨ context.kind ≠ .httpGet ∨
      (context.profile ≠ Artifact.mihomo11931 ∧ context.profile ≠ Artifact.singBox1141) then
    .error "invalid selection context"
  else if context.target.revision = none then .error "invalid selection context"
  else .ok ()

/-- `Context.Matches`. -/
def Context.matchesKey (context : Context) (key : Key) : Bool :=
  context.target.equal key.target && decide (context.vantage = key.vantage) &&
    decide (context.kind = key.kind) && decide (context.profile = key.profile)

/-- `contextsEqual`. -/
def contextsEqual (left right : Context) : Bool :=
  left.target.equal right.target && decide (left.vantage = right.vantage) &&
    decide (left.kind = right.kind) && decide (left.profile = right.profile)

structure Member where
  connection : ConnectionRef
  selectedAt : Time
deriving DecidableEq, Repr

structure Cooldown where
  connection : ConnectionRef
  untilAt : Time
deriving DecidableEq, Repr

structure State where
  scope : Bytes
  context : Context
  policyFingerprint : Digest
  evaluatedAt : Time
  members : List Member
  cooldowns : List Cooldown
deriving DecidableEq, Repr

/-- `refKey`, the key of the maps `Select` and `Validate` build. -/
def refKey (ref : ConnectionRef) : Bytes :=
  ref.id.string ++ (ref.revision.map Subtype.val).getD []

/-- `safeScope`. -/
def safeScope (value : Bytes) : Bool := safeText value

/-- A loop of `State.Validate`: every value passes its own check, and no map key occurs
twice. -/
def validateEach {α : Type} (check : α → Option String) (key : α → Bytes) (duplicate : String) :
    List Bytes → List α → Except String Unit
  | _, [] => .ok ()
  | seen, value :: rest =>
    match check value with
    | some message => .error message
    | none =>
      if key value ∈ seen then .error duplicate
      else validateEach check key duplicate (key value :: seen) rest

/-- The check of one member. -/
def Member.check (member : Member) : Option String :=
  if member.selectedAt = 0 then some "invalid selection member time"
  else if member.connection.id.string = invalidID then
    some "invalid selection member connection"
  else if member.connection.revision = none then some "invalid selection member connection"
  else none

/-- The check of one cooldown.  Unlike a member's, the ID of its connection is not
looked at. -/
def Cooldown.check (cooldown : Cooldown) : Option String :=
  if cooldown.untilAt = 0 then some "invalid selection cooldown time"
  else if cooldown.connection.revision = none then some "invalid selection cooldown connection"
  else none

/-- `State.Validate`. -/
def State.validate (state : State) : Except String Unit := do
  if !safeScope state.scope then throw "invalid selection state scope"
  state.context.check
  if state.policyFingerprint.val.all (· = 0) then
    throw "invalid selection policy fingerprint"
  if state.evaluatedAt = 0 then throw "invalid selection evaluation time"
  validateEach Member.check (fun member => refKey member.connection)
    "duplicate selection member" [] state.members
  validateEach Cooldown.check (fun cooldown => refKey cooldown.connection)
    "duplicate selection cooldown" [] state.cooldowns

/-! ## Decisions -/

inductive Reason where
  | eligible
  | missingEvidence
  | wrongContext
  | wrongRevision
  | stale
  | insufficientSamples
  | unreliable
  | failureStreak
  | noSuccessfulLatency
  | cooldown
  | recovery
deriving DecidableEq, Repr

structure Explanation where
  connection : ConnectionRef
  endpointID : ID
  reason : Reason
  samples : Int
  successes : Int
  successPermille : Int
  meanSuccessDuration : Duration
  confidencePPM : Int
  adaptiveCostNanos : Int
  incumbent : Bool
  residenceActive : Bool
deriving DecidableEq, Repr

inductive Transition where
  | initial
  | unchanged
  | optimized
  | emergency
  | contextReset
  | noEligible
deriving DecidableEq, Repr

structure Candidate (R : Type) where
  record : R
  evidence : Option Summary
deriving DecidableEq

structure Decision (R : Type) where
  selected : List R
  explanations : List Explanation
  next : State
  changed : Bool
  degraded : Bool
  transition : Transition
  eligible : Int
  requested : Int
deriving DecidableEq

/-- `ranked`: a candidate with its reference and evaluation. -/
structure Ranked (R : Type) where
  candidate : Candidate R
  ref : ConnectionRef
  explanation : Explanation
deriving DecidableEq

/-- What the package takes from outside itself. -/
structure Primitives (R : Type) where
  /-- `Record.Identity`; `Record.ID` is its ID. -/
  identity : R → Identity
  /-- SHA-256. -/
  sum256 : Bytes → Digest
  /-- The rounded Wilson lower bound of successes out of samples in parts per
  million, where `0 < samples` and `0 ≤ successes ≤ samples`. -/
  wilsonLower : Int → Int → Int

/-- Two's-complement `int64` maximum. -/
def maxInt64 : Int := 2 ^ 63 - 1

/-- `riskCost`: the duration scaled by a million and divided by the confidence,
rounded up. -/
def riskCost (duration : Duration) (confidence : Int) : Int :=
  if duration ≤ 0 ∨ confidence ≤ 0 then maxInt64
  else (int64 (int64 (duration * 1000000) + confidence - 1)).tdiv confidence

variable {R : Type} (P : Primitives R)

/-- `policyFingerprint`. -/
def policyFingerprint (policy : Policy) : Digest := P.sum256 (policyMaterial policy)

/-- `wilsonLowerPPM`. -/
def wilsonLowerPPM (successes samples : Int) : Int :=
  if samples ≤ 0 ∨ successes < 0 ∨ successes > samples then 0
  else P.wilsonLower successes samples

/-! ## Lookups -/

/-- `findMember`. -/
def findMember (values : List Member) (ref : ConnectionRef) : Bool × Time :=
  match values.find? fun value => value.connection.equal ref with
  | some value => (true, value.selectedAt)
  | none => (false, 0)

/-- `findCooldown`. -/
def findCooldown (values : List Cooldown) (ref : ConnectionRef) : Option Cooldown :=
  values.find? fun value => value.connection.equal ref

/-- `findRanked`. -/
def findRanked (values : List (Ranked R)) (ref : ConnectionRef) : Option (Ranked R) :=
  values.find? fun value => value.ref.equal ref

/-- `containsRanked`. -/
def containsRanked (values : List (Ranked R)) (ref : ConnectionRef) : Bool :=
  (findRanked values ref).isSome

/-- `sameMembers`. -/
def sameMembers : List Member → List Member → Bool
  | [], [] => true
  | left :: lefts, right :: rights =>
    left.connection.equal right.connection && sameMembers lefts rights
  | _, _ => false

/-- `upsertCooldown`. -/
def upsertCooldown : List Cooldown → Cooldown → List Cooldown
  | [], value => [value]
  | head :: rest, value =>
    if head.connection.equal value.connection then value :: rest
    else head :: upsertCooldown rest value

/-! ## Evaluating one candidate -/

/-- `Explanation.SuccessPermille` of a summary. -/
def successPermille (summary : Summary) : Int :=
  if summary.samples > 0 then (int64 (summary.successes * 1000)).tdiv summary.samples else 0

/-- The checks of `evaluate` before the cooldowns are read: the reason of the first
that fails. -/
def rejection (context : Context) (policy : Policy) (ref : ConnectionRef) (summary : Summary) :
    Option Reason :=
  if !context.matchesKey summary.key then some .wrongContext
  else if !summary.key.connection.equal ref then some .wrongRevision
  else if !summary.fresh then some .stale
  else if summary.samples < policy.minSamples then some .insufficientSamples
  else if successPermille summary < policy.minSuccessPermille then some .unreliable
  else if summary.consecutiveFailures ≥ policy.failureStreak then some .failureStreak
  else if summary.successes = 0 ∨ summary.meanSuccessDuration ≤ 0 then
    some .noSuccessfulLatency
  else none

/-- The cooldown check of `evaluate`. -/
def cooldownRejection (policy : Policy) (cooldowns : List Cooldown) (now : Time)
    (ref : ConnectionRef) (summary : Summary) : Option Reason :=
  match findCooldown cooldowns ref with
  | none => none
  | some cooldown =>
    if now < cooldown.untilAt then some .cooldown
    else if summary.consecutiveSuccesses < policy.recoverySuccesses then some .recovery
    else none

/-- `evaluate`. -/
def evaluate (candidate : Candidate R) (ref : ConnectionRef) (context : Context)
    (policy : Policy) (cooldowns : List Cooldown) (incumbent : Bool) (selectedAt now : Time) :
    Explanation :=
  let value : Explanation :=
    { connection := ref
      endpointID := (P.identity candidate.record).id
      reason := .eligible
      samples := 0
      successes := 0
      successPermille := 0
      meanSuccessDuration := 0
      confidencePPM := 0
      adaptiveCostNanos := 0
      incumbent := incumbent
      residenceActive := incumbent && decide (now < selectedAt + policy.residence) }
  match candidate.evidence with
  | none => { value with reason := .missingEvidence }
  | some summary =>
    let value :=
      { value with
        samples := summary.samples
        successes := summary.successes
        successPermille := successPermille summary
        meanSuccessDuration := summary.meanSuccessDuration }
    match rejection context policy ref summary with
    | some reason => { value with reason := reason }
    | none =>
      match cooldownRejection policy cooldowns now ref summary with
      | some reason => { value with reason := reason }
      | none =>
        let confidence := wilsonLowerPPM P summary.successes summary.samples
        if confidence ≤ 0 then
          { value with confidencePPM := confidence, reason := .unreliable }
        else
          { value with
            confidencePPM := confidence
            adaptiveCostNanos := riskCost summary.meanSuccessDuration confidence }

/-! ## Ranking and optimising -/

/-- What `sortRanked` compares before the identities: nothing for the static strategy
(both sides keep Go's zero value for an unknown strategy too). -/
def strategyKey (strategy : Strategy) (value : Ranked R) : Int :=
  match strategy with
  | .lowestLatency => value.explanation.meanSuccessDuration
  | .adaptive => value.explanation.adaptiveCostNanos
  | _ => 0

/-- The comparison of `sortRanked`. -/
def lessRanked (strategy : Strategy) (left right : Ranked R) : Bool :=
  if strategy ≠ .static ∧ strategyKey strategy left ≠ strategyKey strategy right then
    strategyKey strategy left < strategyKey strategy right
  else
    (P.identity left.candidate.record).compare (P.identity right.candidate.record) = .lt

/-- `sortRanked`. -/
def sortRanked (strategy : Strategy) (values : List (Ranked R)) : List (Ranked R) :=
  sortSlice (lessRanked P strategy) values

/-- `improvesBy`. -/
def improvesBy (challenger incumbent : Explanation) (requiredPermille : Int) : Bool :=
  decide (challenger.meanSuccessDuration * incumbent.confidencePPM * 1000 ≤
      incumbent.meanSuccessDuration * challenger.confidencePPM * (1000 - requiredPermille)) &&
    decide (challenger.adaptiveCostNanos < incumbent.adaptiveCostNanos)

/-- The residence test of `optimize`. -/
def resident (previous : List Member) (policy : Policy) (now : Time) (ref : ConnectionRef) : Bool :=
  decide ((findMember previous ref).2 ≠ 0) &&
    decide (now < (findMember previous ref).2 + policy.residence)

/-- One turn of the inner loop of `optimize`, which looks for the worst entry that
may be displaced. -/
def worstStep (previous : List Member) (policy : Policy) (now : Time)
    (worst : Option (Nat × Ranked R)) (entry : Ranked R × Nat) : Option (Nat × Ranked R) :=
  if resident previous policy now entry.1.ref then worst
  else match worst with
    | none => some (entry.2, entry.1)
    | some (index, value) =>
      if value.explanation.adaptiveCostNanos < entry.1.explanation.adaptiveCostNanos ∨
          value.explanation.adaptiveCostNanos = entry.1.explanation.adaptiveCostNanos ∧
            (P.identity value.candidate.record).compare
              (P.identity entry.1.candidate.record) = .lt then
        some (entry.2, entry.1)
      else some (index, value)

/-- The inner loop of `optimize`: index and value of the worst entry. -/
def findWorst (previous : List Member) (policy : Policy) (now : Time)
    (selected : List (Ranked R)) : Option (Nat × Ranked R) :=
  selected.zipIdx.foldl (worstStep P previous policy now) none

/-- One turn of the outer loop of `optimize`. -/
def optimizeStep (previous : List Member) (policy : Policy) (now : Time)
    (selected : List (Ranked R)) (challenger : Ranked R) : List (Ranked R) :=
  if containsRanked selected challenger.ref then selected
  else match findWorst P previous policy now selected with
    | none => selected
    | some (index, worst) =>
      if improvesBy challenger.explanation worst.explanation
          policy.requiredImprovementPermille then
        selected.set index challenger
      else selected

/-- `optimize`. -/
def optimize (selected ranked : List (Ranked R)) (previous : List Member) (policy : Policy)
    (now : Time) : List (Ranked R) :=
  ranked.foldl (optimizeStep P previous policy now) selected

/-! ## The phases of `Select` -/

/-- The previous state, when it is usable. -/
def carried (scope : Bytes) (context : Context) (policy : Policy) (previous : Option State) :
    Option State :=
  previous.filter fun state =>
    decide (state.scope = scope) && contextsEqual state.context context &&
      decide (state.policyFingerprint = policyFingerprint P policy)

/-- `previousMembers`. -/
def previousMembers (usable : Option State) : List Member := (usable.map State.members).getD []

/-- `cooldowns`. -/
def previousCooldowns (usable : Option State) : List Cooldown :=
  (usable.map State.cooldowns).getD []

/-- The scan of the sorted candidates: each with its reference and evaluation. -/
def survey (context : Context) (policy : Policy) (members : List Member)
    (cooldowns : List Cooldown) (now : Time) : List (Candidate R) → Except String (List (Ranked R))
  | [] => .ok []
  | candidate :: rest =>
    match newConnectionRef (P.identity candidate.record) with
    | .error _ => .error "selection candidate has invalid identity"
    | .ok ref =>
      let incumbent := findMember members ref
      let explanation := evaluate P candidate ref context policy cooldowns
        incumbent.1 incumbent.2 now
      match survey context policy members cooldowns now rest with
      | .error message => .error message
      | .ok surveyed => .ok (⟨candidate, ref, explanation⟩ :: surveyed)

/-- The cooldowns of current candidates that are not yet released. -/
def keepCooldowns (policy : Policy) (now : Time) (surveyed ranked : List (Ranked R))
    (cooldowns : List Cooldown) : List Cooldown :=
  cooldowns.filter fun cooldown =>
    (surveyed.any fun value => decide (refKey value.ref = refKey cooldown.connection)) &&
      (decide (now < cooldown.untilAt) ||
        match findRanked ranked cooldown.connection with
        | none => true
        | some entry =>
          match entry.candidate.evidence with
          | none => true
          | some summary => decide (summary.consecutiveSuccesses < policy.recoverySuccesses))

/-- `reasons[refKey(ref)]`; `none` is the missing entry. -/
def reasonOf (surveyed : List (Ranked R)) (ref : ConnectionRef) : Option Reason :=
  (surveyed.find? fun value => decide (refKey value.ref = refKey ref)).map
    (·.explanation.reason)

/-- What the loop over the previous members accumulates. -/
structure Retained (R : Type) where
  selected : List (Ranked R)
  emergency : Bool
  cooldowns : List Cooldown

/-- One previous member: kept when still eligible; otherwise the decision is an
emergency, and a failing member starts its cooldown. -/
def retainStep (policy : Policy) (now : Time) (surveyed ranked : List (Ranked R))
    (acc : Retained R) (member : Member) : Retained R :=
  match findRanked ranked member.connection with
  | some entry => { acc with selected := acc.selected ++ [entry] }
  | none =>
    { acc with
      emergency := true
      cooldowns :=
        if reasonOf surveyed member.connection = some .failureStreak ∨
            reasonOf surveyed member.connection = some .unreliable then
          upsertCooldown acc.cooldowns ⟨member.connection, now + policy.cooldown⟩
        else acc.cooldowns }

/-- The loop over the previous members. -/
def retain (policy : Policy) (now : Time) (surveyed ranked : List (Ranked R))
    (cooldowns : List Cooldown) (members : List Member) : Retained R :=
  members.foldl (retainStep policy now surveyed ranked) ⟨[], false, cooldowns⟩

/-- More incumbents than slots: only the best stay. -/
def truncate (policy : Policy) (selected : List (Ranked R)) : List (Ranked R) :=
  if (selected.length : Int) > policy.topN then
    (sortRanked P policy.strategy selected).take policy.topN.toNat
  else selected

/-- One turn of the loop that fills the free slots. -/
def fillStep (policy : Policy) (selected : List (Ranked R)) (candidate : Ranked R) :
    List (Ranked R) :=
  if (selected.length : Int) ≥ policy.topN ∨ containsRanked selected candidate.ref then selected
  else selected ++ [candidate]

/-- The loop that fills the free slots in rank order. -/
def fill (policy : Policy) (ranked selected : List (Ranked R)) : List (Ranked R) :=
  ranked.foldl (fillStep policy) selected

/-- What `Select` retains of the previous state before it fills up. -/
def retained (policy : Policy) (now : Time) (surveyed ranked : List (Ranked R))
    (usable : Option State) : Retained R :=
  let kept := keepCooldowns policy now surveyed ranked (previousCooldowns usable)
  if policy.strategy = .adaptive ∧ usable.isSome then
    let acc := retain policy now surveyed ranked kept (previousMembers usable)
    { acc with selected := truncate P policy acc.selected }
  else ⟨[], false, kept⟩

/-- The selected entries, from what was retained. -/
def choose (policy : Policy) (now : Time) (ranked : List (Ranked R)) (usable : Option State)
    (start : List (Ranked R)) : List (Ranked R) :=
  let selected := fill policy ranked start
  if policy.strategy ≠ .adaptive ∨ usable = none then
    if (selected.length : Int) > policy.topN then selected.take policy.topN.toNat else selected
  else if (selected.length : Int) = policy.topN then
    optimize P selected ranked (previousMembers usable) policy now
  else selected

/-- The next member of a selected entry: an incumbent keeps its selection time. -/
def nextMember (members : List Member) (now : Time) (value : Ranked R) : Member :=
  let selectedAt := (findMember members value.ref).2
  ⟨value.ref, if selectedAt = 0 then now else selectedAt⟩

/-- Everything `Select` does once the candidates are evaluated. -/
def conclude (scope : Bytes) (context : Context) (policy : Policy) (previous usable : Option State)
    (now : Time) (surveyed : List (Ranked R)) : Decision R :=
  let ranked := sortRanked P policy.strategy
    (surveyed.filter fun value => value.explanation.reason = .eligible)
  let acc := retained P policy now surveyed ranked usable
  let selected := choose P policy now ranked usable acc.selected
  let members := selected.map (nextMember (previousMembers usable) now)
  let changed := !sameMembers (previousMembers usable) members
  { selected := selected.map (·.candidate.record)
    explanations := surveyed.map (·.explanation)
    next :=
      { scope := scope
        context := context
        policyFingerprint := policyFingerprint P policy
        evaluatedAt := now
        members := members
        cooldowns := acc.cooldowns }
    changed := changed
    degraded := (selected.length : Int) < policy.topN
    transition :=
      if selected = [] then .noEligible
      else if acc.emergency && changed then .emergency
      else if changed && usable.isSome then .optimized
      else if usable.isSome then .unchanged
      else if previous.isSome then .contextReset
      else .initial
    eligible := ranked.length
    requested := policy.topN }

/-- Sorting the candidates by identity. -/
def orderCandidates (candidates : List (Candidate R)) : List (Candidate R) :=
  sortSlice (fun left right =>
    decide ((P.identity left.record).compare (P.identity right.record) = .lt)) candidates

/-- The duplicate check on neighbours. -/
def hasDuplicate : List (Candidate R) → Bool
  | first :: second :: rest =>
    (P.identity first.record).equal (P.identity second.record) || hasDuplicate (second :: rest)
  | _ => false

/-- `Select`. -/
def select (scope : Bytes) (context : Context) (policy : Policy)
    (candidates : List (Candidate R)) (previous : Option State) (now : Time) :
    Except String (Decision R) := do
  if !safeScope scope || decide (now = 0) then
    throw "selection requires a safe scope and explicit evaluation time"
  policy.validate
  let usable := carried P scope context policy previous
  if usable.any fun state => decide (now < state.evaluatedAt) then
    throw "selection evaluation is older than committed state"
  let ordered := orderCandidates P candidates
  if hasDuplicate P ordered then
    throw "selection candidates contain duplicate connection revisions"
  let surveyed ← survey P context policy (previousMembers usable) (previousCooldowns usable)
    now ordered
  return conclude P scope context policy previous usable now surveyed

end Egressfox.Selection
