import Egressfox.Lib.Json
import Egressfox.Observation.Model

/-!
# Publication receipts

The receipts of `internal/artifact/artifact.go`.

A receipt is the JSON text of its data, and every receipt other than the zero value comes
out of `RestoreReceipt`; so a `Receipt` here is data that `RestoreReceipt` accepts, and
the zero value is an absent receipt.  Two receipts are equal when their texts are, which
for JSON means that their data are.
-/

namespace Egressfox.Artifact

open Lib

/-- The value of the `uint8` constant. -/
def Engine.code : Engine → Int
  | .mihomo => 1
  | .singBox => 2
  | .other code => code.val

/-- The check of `NewCandidate` on a profile: a known engine and no empty text. -/
def Profile.known (profile : Profile) : Bool :=
  (profile.engine = .mihomo || profile.engine = .singBox) && profile.version ≠ [] &&
    profile.rendererSchema ≠ [] && profile.mediaType ≠ []

/-- `safeValidatorID`. -/
def safeValidatorID (value : Bytes) : Bool := safeText value

/-- `receiptData`. -/
structure ReceiptData where
  profile : Profile
  generation : Bytes
  validatorID : Bytes
deriving DecidableEq, Repr

/-- The checks of `RestoreReceipt`. -/
def ReceiptData.restorable (data : ReceiptData) : Bool :=
  data.generation.length = 32 && safeValidatorID data.validatorID && data.profile.known

/-- The JSON text of a receipt. -/
def ReceiptData.marshal (data : ReceiptData) : Bytes :=
  Json.object [("engine", Json.number data.profile.engine.code),
    ("version", Json.string data.profile.version),
    ("renderer_schema", Json.string data.profile.rendererSchema),
    ("media_type", Json.string data.profile.mediaType),
    ("generation", Json.bytes data.generation),
    ("validator_id", Json.string data.validatorID)]

/-- Protected publication evidence for one exact artifact. -/
abbrev Receipt := { data : ReceiptData // data.restorable = true }

/-- `RestoreReceipt`. -/
def restoreReceipt (data : ReceiptData) : Option Receipt :=
  if h : data.restorable = true then some ⟨data, h⟩ else none

theorem restoreReceipt_val (receipt : Receipt) : restoreReceipt receipt.val = some receipt := by
  rw [restoreReceipt, dif_pos receipt.property]

/-- `Receipt.Equal`: an absent receipt equals nothing. -/
def receiptEqual : Option Receipt → Option Receipt → Bool
  | some receipt, some other => receipt = other
  | _, _ => false

end Egressfox.Artifact
