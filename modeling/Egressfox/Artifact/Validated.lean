import Egressfox.Artifact.Receipt

/-!
# Validated artifacts

The artifacts of `internal/artifact/artifact.go` that publishers write, and the receipts
that go with them.

A `Validated` comes out of `Validate` only, so it carries the checks of `NewCandidate` and
of `Validate`.  Its generation is the SHA-256 digest of a text with the profile and the
content; the digest function and the JSON reader of receipts are the two fields of
`Encoding`, and what is assumed of them is stated where it is used.

`matchesProtectedReceipt_eq_some_iff` says when stored content and a stored receipt belong
together; the publishers use nothing else about receipts.
-/

namespace Egressfox.Artifact

open Lib

/-- `Engine.String`. -/
def Engine.string : Engine → Bytes
  | .mihomo => ascii "mihomo"
  | .singBox => ascii "sing-box"
  | .other _ => ascii "unknown"

/-- The `uint8` itself. -/
def Engine.byte : Engine → Byte
  | .mihomo => 1
  | .singBox => 2
  | .other code => code

/-- SHA-256, and `json.Unmarshal` into `receiptData`. -/
structure Encoding where
  sum256 : Bytes → Digest
  unmarshal : Bytes → Option ReceiptData

/-- What `generation` hashes. -/
def generationText (profile : Profile) (content : Bytes) : Bytes :=
  ascii "egressfox.artifact/v1" ++ (profile.engine.byte ::
    (lengthPrefixed profile.version ++ (lengthPrefixed profile.rendererSchema ++
      (lengthPrefixed profile.mediaType ++ content))))

/-- `generation`. -/
def Encoding.generation (E : Encoding) (profile : Profile) (content : Bytes) : Digest :=
  E.sum256 (generationText profile content)

variable {profile : Profile} {content : Bytes} {v : Validated} {E : Encoding}

/-- An artifact that a native checker has accepted. -/
structure Validated where
  profile : Profile
  content : Bytes
  validatorID : Bytes
  known : profile.known = true
  content_ne : content ≠ []
  safe : safeValidatorID validatorID = true
deriving DecidableEq

/-- One of the profiles that the native checkers accept. -/
def Validated.Supported (v : Validated) : Prop := v.profile = mihomo11931 ∨ v.profile = singBox1141

/-- `Publication`. -/
structure Publication where
  profile : Profile
  changed : Bool
deriving DecidableEq

/-- `reconcile.PublicationStatus`: what `Apply` knows about the output. -/
inductive PublicationStatus where
  | none
  | uncertain
  | written
  | confirmed
deriving DecidableEq

namespace Encoding

/-- The data of the receipt of an artifact. -/
def receiptData (E : Encoding) (v : Validated) : ReceiptData :=
  ⟨v.profile, (E.generation v.profile v.content).val, v.validatorID⟩

/-- `Validated.ProtectedReceipt`. -/
def protectedReceipt (E : Encoding) (v : Validated) : Bytes := (E.receiptData v).marshal

theorem restorable_receiptData (E : Encoding) (v : Validated) :
    (E.receiptData v).restorable = true := by
  simp [receiptData, ReceiptData.restorable, v.known, v.safe,
    (E.generation v.profile v.content).property]

/-- Receipts are short. -/
theorem length_protectedReceipt_le (E : Encoding) (h : v.Supported) :
    (E.protectedReceipt v).length ≤ 2000 := by
  have hid : v.validatorID.length ≤ 128 := by
    have hsafe := v.safe
    simp only [safeValidatorID, safeText, Bool.and_eq_true, decide_eq_true_eq] at hsafe
    exact hsafe.1.2
  have hvalidator := Json.length_string_le v.validatorID
  have hgeneration := Json.length_bytes_le (E.generation v.profile v.content).val
  rw [(E.generation v.profile v.content).property] at hgeneration
  have hkeys : (Json.string (ascii "engine")).length + (Json.string (ascii "version")).length +
      (Json.string (ascii "renderer_schema")).length + (Json.string (ascii "media_type")).length +
      (Json.string (ascii "generation")).length + (Json.string (ascii "validator_id")).length ≤
        100 := by decide +kernel
  have hprofile : ∀ profile, profile = mihomo11931 ∨ profile = singBox1141 →
      (Json.number profile.engine.code).length + (Json.string profile.version).length +
        (Json.string profile.rendererSchema).length + (Json.string profile.mediaType).length ≤
        100 := by
    rintro profile (rfl | rfl)
    · decide +kernel
    · decide +kernel
  have hfields := hprofile v.profile h
  rw [protectedReceipt, ReceiptData.marshal]
  refine (Json.length_object_le _).trans ?_
  simp only [receiptData, List.map_cons, List.map_nil, List.sum_cons, List.sum_nil]
  omega

/-- `Validated.Receipt`. -/
def receipt (E : Encoding) (v : Validated) : Receipt :=
  ⟨E.receiptData v, E.restorable_receiptData v⟩

/-- `RestoreReceipt`, from the stored text. -/
def restore (E : Encoding) (encoded : Bytes) : Option Receipt :=
  (E.unmarshal encoded).bind restoreReceipt

/-- `MatchesProtectedReceipt`: the profile, if the content and the receipt match. -/
def matchesProtectedReceipt (E : Encoding) (content encoded : Bytes) : Option Profile :=
  match E.unmarshal encoded with
  | none => none
  | some data =>
    if data.generation.length ≠ 32 || !safeValidatorID data.validatorID then none
    else if !data.profile.known || content = [] then none
    else if (E.generation data.profile content).val = data.generation then some data.profile
    else none

/-- **A stored receipt matches stored content** if it can be restored, and its generation is
that of the content. -/
theorem matchesProtectedReceipt_eq_some_iff {encoded : Bytes} :
    E.matchesProtectedReceipt content encoded = some profile ↔
      ∃ receipt, E.restore encoded = some receipt ∧ content ≠ [] ∧
        receipt.val.profile = profile ∧
        (E.generation profile content).val = receipt.val.generation := by
  unfold matchesProtectedReceipt restore
  cases hdata : E.unmarshal encoded with
  | none => simp
  | some data =>
    simp only [Option.bind_some, restoreReceipt]
    constructor
    · intro h
      split_ifs at h with hshape hcandidate hgeneration
      obtain rfl := Option.some.inj h
      simp only [ne_eq, Bool.or_eq_true, decide_eq_true_eq, Bool.not_eq_true', not_or, not_not,
        Bool.not_eq_false] at hshape hcandidate
      have hrestorable : data.restorable = true := by
        simp [ReceiptData.restorable, hshape.1, hshape.2, hcandidate.1]
      exact ⟨⟨data, hrestorable⟩, by rw [dif_pos hrestorable], hcandidate.2, rfl, hgeneration⟩
    · rintro ⟨receipt, hrestore, hcontent, rfl, hgeneration⟩
      split_ifs at hrestore with hrestorable
      obtain rfl := Option.some.inj hrestore
      simp only [ReceiptData.restorable, Bool.and_eq_true, decide_eq_true_eq] at hrestorable
      simp [hrestorable.1.1, hrestorable.1.2, hrestorable.2, hcontent, hgeneration]

/-- The JSON text of the receipt of an artifact is read back. -/
def Reads (E : Encoding) (v : Validated) : Prop :=
  E.unmarshal (E.protectedReceipt v) = some (E.receiptData v)

theorem Reads.restore (h : E.Reads v) : E.restore (E.protectedReceipt v) = some (E.receipt v) := by
  rw [Encoding.restore, h, Option.bind_some]
  exact restoreReceipt_val (E.receipt v)

/-- The receipt of an artifact matches its content. -/
theorem Reads.matches_self (h : E.Reads v) :
    E.matchesProtectedReceipt v.content (E.protectedReceipt v) = some v.profile :=
  matchesProtectedReceipt_eq_some_iff.mpr ⟨E.receipt v, h.restore, v.content_ne, rfl, rfl⟩

/-- **The receipt of an artifact matches no other content**, if the digests of the two texts
differ. -/
theorem Reads.content_eq (h : E.Reads v)
    (hdigest : E.generation v.profile content = E.generation v.profile v.content →
      content = v.content)
    (hmatch : E.matchesProtectedReceipt content (E.protectedReceipt v) = some profile) :
    content = v.content := by
  obtain ⟨receipt, hrestore, -, rfl, hgeneration⟩ :=
    matchesProtectedReceipt_eq_some_iff.mp hmatch
  rw [h.restore] at hrestore
  obtain rfl := Option.some.inj hrestore
  exact hdigest (Subtype.ext hgeneration)

/-- The digest tells the texts of these artifacts apart. -/
def CollisionFree (E : Encoding) (artifacts : Set Validated) : Prop :=
  Set.InjOn E.sum256 ((fun v => generationText v.profile v.content) '' artifacts)

/-- Artifacts with the same receipt have the same content. -/
theorem CollisionFree.content_eq {artifacts : Set Validated} (h : E.CollisionFree artifacts)
    {w : Validated} (hv : v ∈ artifacts) (hw : w ∈ artifacts) (hreceipt : E.receipt v = E.receipt w)
    : v.content = w.content := by
  have hdata : E.receiptData v = E.receiptData w := congrArg Subtype.val hreceipt
  have hprofile : v.profile = w.profile := congrArg ReceiptData.profile hdata
  have hgeneration : E.generation v.profile v.content = E.generation w.profile w.content :=
    Subtype.ext (congrArg ReceiptData.generation hdata)
  have htext := h (Set.mem_image_of_mem _ hv) (Set.mem_image_of_mem _ hw) hgeneration
  rw [hprofile] at htext
  simpa [generationText] using htext

end Encoding

end Egressfox.Artifact
