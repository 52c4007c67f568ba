import Egressfox.Endpoint.Identity

/-!
# Evidence keys and summaries

The part of `internal/observation` and `internal/artifact` that planning reads:
connection and target references, the evidence key and the summary of one key's
observations.  A reference with an absent revision equals nothing, itself included.

Of a summary, the success ratio (a float) and the latest observations are left out:
planning never reads them.
-/

namespace Egressfox

open Lib

namespace Artifact

/-- `artifact.Engine`; `other` stands for every value that names no engine. -/
inductive Engine where
  | mihomo
  | singBox
  | other (code : Byte)
deriving DecidableEq, Repr

/-- `artifact.Profile`. -/
structure Profile where
  engine : Engine
  version : Bytes
  rendererSchema : Bytes
  mediaType : Bytes
deriving DecidableEq, Repr

def mihomo11931 : Profile :=
  ⟨.mihomo, ascii "1.19.31", ascii "egressfox.mihomo/v1", ascii "application/yaml"⟩

def singBox1141 : Profile :=
  ⟨.singBox, ascii "1.14.1", ascii "egressfox.sing-box/v3", ascii "application/json"⟩

end Artifact

namespace Observation

open Endpoint

/-- `observation.Kind`; `other` stands for every value that names no kind. -/
inductive Kind where
  | httpGet
  | other (code : Byte)
deriving DecidableEq, Repr

/-- One connection revision. -/
structure ConnectionRef where
  id : ID
  revision : Option Digest
deriving DecidableEq, Repr

/-- `NewConnectionRef`. -/
def newConnectionRef (identity : Identity) : Except String ConnectionRef :=
  if identity.revision = none ∨ identity.id.string = invalidID then
    .error "invalid observation connection reference"
  else .ok { id := identity.id, revision := identity.revision }

/-- `ConnectionRef.Equal`. -/
def ConnectionRef.equal (reference other : ConnectionRef) : Bool :=
  decide (reference.id = other.id) && revisionEqual reference.revision other.revision

theorem ConnectionRef.equal_iff {reference other : ConnectionRef} :
    reference.equal other = true ↔ reference = other ∧ reference.revision.isSome := by
  obtain ⟨id, revision⟩ := reference
  obtain ⟨id', revision'⟩ := other
  simp [equal, and_assoc]

/-- A created reference carries a revision, the identity's ID and nothing else. -/
theorem newConnectionRef_eq_ok_iff {identity : Identity} {ref : ConnectionRef} :
    newConnectionRef identity = .ok ref ↔
      ref = ⟨identity.id, identity.revision⟩ ∧ identity.revision.isSome ∧
        identity.id.string ≠ invalidID := by
  obtain ⟨id, revision⟩ := identity
  unfold newConnectionRef
  cases revision <;> by_cases hid : id.string = invalidID <;> simp [hid, eq_comm]

/-- One probe target revision. -/
structure TargetRef where
  id : Bytes
  revision : Option Digest
deriving DecidableEq, Repr

/-- `TargetRef.Equal`. -/
def TargetRef.equal (reference other : TargetRef) : Bool :=
  decide (reference.id = other.id) && revisionEqual reference.revision other.revision

theorem TargetRef.equal_iff {reference other : TargetRef} :
    reference.equal other = true ↔ reference = other ∧ reference.revision.isSome := by
  obtain ⟨id, revision⟩ := reference
  obtain ⟨id', revision'⟩ := other
  simp [equal, and_assoc]

/-- The complete evidence key. -/
structure Key where
  connection : ConnectionRef
  target : TargetRef
  vantage : Bytes
  kind : Kind
  profile : Artifact.Profile
deriving DecidableEq, Repr

/-- `observation.Summary`. -/
structure Summary where
  key : Key
  samples : Int
  successes : Int
  meanSuccessDuration : Duration
  consecutiveSuccesses : Int
  consecutiveFailures : Int
  fresh : Bool
deriving DecidableEq, Repr

end Observation

end Egressfox
