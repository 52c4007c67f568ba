import Egressfox.Artifact.Validated
import Egressfox.Checkpoint.Codec

/-!
# Observations

`observation.New` and `observationDigest` of `internal/observation/model.go`.

An `Observation` is what `New` accepts: the check is a field, so there is no other way to
make one.  Its sample ID is always the digest of the rest, so it is computed where it is
used, from the hash function.
-/

namespace Egressfox

open Lib Endpoint Artifact Checkpoint

namespace Observation

/-- `observation.Outcome`; `other` stands for every value that names no outcome. -/
inductive Outcome where
  | success
  | timeout
  | connectionFailure
  | tlsFailure
  | unexpectedResponse
  | responseTooLarge
  | other (code : Byte)
deriving DecidableEq, Repr

/-- The `uint8` itself. -/
def Outcome.byte : Outcome → Byte
  | .success => 1
  | .timeout => 2
  | .connectionFailure => 3
  | .tlsFailure => 4
  | .unexpectedResponse => 5
  | .responseTooLarge => 6
  | .other code => code

/-- The `uint8` itself. -/
def Kind.byte : Kind → Byte
  | .httpGet => 1
  | .other code => code

/-- `supportedProfile`. -/
def supportedProfile (profile : Profile) : Bool :=
  profile = mihomo11931 || profile = singBox1141

/-- `NewKey` succeeds. -/
def Key.valid (key : Key) : Bool :=
  key.connection.id.string ≠ invalidID && key.target.id ≠ [] && key.vantage ≠ [] &&
    key.kind = .httpGet && supportedProfile key.profile

/-- `observation.Params`. -/
structure Params where
  key : Key
  startedAt : Time
  completedAt : Time
  duration : Duration
  outcome : Outcome
  statusCode : Int
deriving DecidableEq, Repr

/-- The outcomes that come with a response, hence with an HTTP status. -/
def Outcome.responded (outcome : Outcome) : Bool :=
  outcome = .success || outcome = .unexpectedResponse

/-- The checks of `New`, in order: the error, or none. -/
def Params.failure (params : Params) : Option String :=
  if !params.key.valid then some "invalid observation key"
  else if params.startedAt = 0 ∨ params.completedAt = 0 ∨ params.completedAt < params.startedAt ∨
      params.duration < 0 ∨ params.duration > 2 * Duration.minute then
    some "invalid observation timing"
  else if params.outcome.byte < Outcome.success.byte ∨
      params.outcome.byte > Outcome.responseTooLarge.byte then
    some "invalid observation outcome"
  else if params.outcome.responded then
    if params.statusCode < 100 ∨ params.statusCode > 599 then
      some "invalid observation HTTP status"
    else none
  else if params.statusCode ≠ 0 then
    some "HTTP status is not valid for this observation outcome"
  else none

end Observation

/-- `observation.Observation`. -/
structure Observation extends Observation.Params where
  accepted : toParams.failure = none
deriving DecidableEq, Repr

namespace Observation

/-- `New`. -/
def new (params : Params) : Except String Observation :=
  match h : params.failure with
  | some text => .error text
  | none => .ok ⟨params, h⟩

/-- What the checks of `New` say about the key and the numbers. -/
theorem checked (value : Observation) : value.key.valid = true ∧
    (0 ≤ value.duration ∧ value.duration ≤ 2 * Duration.minute) ∧
    0 ≤ value.statusCode ∧ value.statusCode ≤ 599 := by
  have h := value.accepted
  rw [Params.failure] at h
  split_ifs at h with hkey htiming _ _ hstatus hstatus
  · simp only [not_or, not_lt, gt_iff_lt] at htiming hstatus
    exact ⟨by simpa using hkey, htiming.2.2.2, by linarith [hstatus.1], hstatus.2⟩
  · simp only [not_or, not_lt, gt_iff_lt] at htiming
    rw [not_not.mp hstatus]
    exact ⟨by simpa using hkey, htiming.2.2.2, le_rfl, by norm_num⟩

/-- The connection of an accepted key has an ID. -/
theorem id_string_ne (value : Observation) : value.key.connection.id.string ≠ invalidID := by
  have hvalid := value.checked.1
  simp only [Key.valid, Bool.and_eq_true, decide_eq_true_eq] at hvalid
  exact hvalid.1.1.1.1

/-- `uint64(x)` of an `int64`. -/
def uint64 (x : Int) : Nat := (x % 2 ^ 64).toNat

/-- `RevealForPersistence` with its error ignored. -/
def revealed (revision : Option Digest) : Bytes := (revision.map Subtype.val).getD []

/-- The text that `observationDigest` hashes. -/
def digestText (value : Observation) : Bytes :=
  ascii "egressfox.observation/v1" ++
    lengthPrefixed value.key.connection.id.string ++ revealed value.key.connection.revision ++
    lengthPrefixed value.key.target.id ++ revealed value.key.target.revision ++
    lengthPrefixed value.key.vantage ++
    [value.key.kind.byte, value.key.profile.engine.byte, value.outcome.byte] ++
    lengthPrefixed value.key.profile.version ++ lengthPrefixed value.key.profile.rendererSchema ++
    bigEndian 8 (uint64 (unixNano value.startedAt)) ++
    bigEndian 8 (uint64 (unixNano value.completedAt)) ++
    bigEndian 8 (uint64 value.duration) ++ bigEndian 8 (uint64 value.statusCode)

/-- `observationDigest`, the sample ID. -/
def observationDigest (sum256 : Bytes → Digest) (value : Observation) : Digest :=
  sum256 (digestText value)

end Observation

end Egressfox
