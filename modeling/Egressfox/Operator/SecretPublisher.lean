import Egressfox.Artifact.Validated
import Egressfox.Lib.Assoc

/-!
# Publication to an owned Secret

`SecretPublisher` of `internal/operator/secret_publisher.go`.  The cluster is the Secret
under the output name, if there is one; how each request of a call ends is an argument.  A
failed create or update may have been applied.

Of a Secret the type, the controller reference, the engine label and the data are kept.
The `managed-by` label is written and never read, and is left out.
-/

namespace Egressfox.Operator

open Lib Artifact

/-- `metav1.OwnerReference` of a controller. -/
structure OwnerReference where
  apiVersion : Bytes
  kind : Bytes
  name : Bytes
  uid : Bytes
deriving DecidableEq

/-- `corev1.Secret`. -/
structure Secret where
  type : Bytes
  controller : Option OwnerReference
  engineLabel : Option Bytes
  data : Assoc Bytes Bytes

/-- `EngineSecretType`. -/
def engineSecretType : Bytes := ascii "egressfox.io/engine-config"

/-- `ReceiptDataKey`. -/
def receiptDataKey : Bytes := ascii ".egressfox-receipt"

/-- `MaxSecretDataBytes`. -/
def maxSecretDataBytes : Nat := 900 * 1024

/-- The code of a `SecretPublicationError`.  The code `artifact` is missing: an artifact that
came out of `Validate` has a receipt. -/
inductive PublicationCode where
  | read
  | ownership
  | receipt
  | profile
  | snapshotObsolete
  | payloadTooLarge
  | owner
  | create
  | update
deriving DecidableEq, Repr

/-- `SecretPublicationError.PublicationUncertain`. -/
def PublicationCode.publicationUncertain : PublicationCode → Bool
  | .create => true
  | .update => true
  | _ => false

/-- What a `SecretPublisher` reads of its owner. -/
structure SecretPublisher where
  ownerName : Bytes
  ownerUID : Bytes
  /-- `Spec.Engine`. -/
  engine : Bytes

/-- How a create or update request ends. -/
inductive WriteResult where
  | done
  | failed (applied : Bool)
deriving DecidableEq

/-- How the requests of one `Publish` end. -/
structure Requests where
  /-- The guard finds the snapshot current. -/
  guard : Bool
  /-- The Secret can be read. -/
  get : Bool
  /-- `SetControllerReference` succeeds. -/
  reference : Bool
  write : WriteResult

/-- `configDataKey`. -/
def configDataKey (profile : Profile) : Option Bytes :=
  match profile.engine with
  | .mihomo => some (ascii "config.yaml")
  | .singBox => some (ascii "config.json")
  | .other _ => none

/-- The data of an output Secret. -/
def outputData (configKey content receipt : Bytes) : Assoc Bytes Bytes :=
  ((∅ : Assoc Bytes Bytes).insert receiptDataKey receipt).insert configKey content

namespace SecretPublisher

/-- The reference that `SetControllerReference` sets. -/
def reference (p : SecretPublisher) : OwnerReference :=
  ⟨ascii "egressfox.io/v1alpha1", ascii "EgressGateway", p.ownerName, p.ownerUID⟩

/-- `SecretPublisher.owned`. -/
def owned (p : SecretPublisher) (secret : Secret) : Bool :=
  secret.type = engineSecretType && secret.controller = some p.reference

/-- `SecretPublisher.profileEngine`. -/
def profileEngine (p : SecretPublisher) : Bytes :=
  if p.engine = ascii "Mihomo" then Engine.mihomo.string
  else if p.engine = ascii "SingBox" then Engine.singBox.string
  else ascii "unknown"

/-- The loop of `CurrentReceipt` over the two keys of a configuration. -/
def findReceipt (E : Encoding) (secret : Secret) : List Bytes → Except PublicationCode Receipt
  | [] => .error .receipt
  | key :: keys =>
    let encoded := (secret.data.lookup receiptDataKey).getD []
    match E.matchesProtectedReceipt ((secret.data.lookup key).getD []) encoded with
    | none => findReceipt E secret keys
    | some profile =>
      match E.restore encoded with
      | none => .error .receipt
      | some receipt =>
        if profile.engine.string ≠ secret.engineLabel.getD [] then .error .receipt
        else .ok receipt

/-- `SecretPublisher.CurrentReceipt`; `get` says whether the request succeeds. -/
def currentReceipt (E : Encoding) (p : SecretPublisher) (get : Bool) (current : Option Secret) :
    Except PublicationCode (Option Receipt) :=
  if !get then .error .read
  else
    match current with
    | none => .ok none
    | some secret =>
      if !p.owned secret then .error .ownership
      else (findReceipt E secret [ascii "config.yaml", ascii "config.json"]).map some

/-- A create or update request: its result and what is stored afterwards. -/
def write (result : WriteResult) (code : PublicationCode) (profile : Profile)
    (current : Option Secret) (desired : Secret) :
    Except PublicationCode Publication × Option Secret :=
  match result with
  | .done => (.ok ⟨profile, true⟩, some desired)
  | .failed applied => (.error code, if applied then some desired else current)

/-- `SecretPublisher.Publish`: its result and what is stored afterwards. -/
def publish (E : Encoding) (p : SecretPublisher) (requests : Requests) (current : Option Secret)
    (v : Validated) : Except PublicationCode Publication × Option Secret :=
  if v.profile.engine.string ≠ p.profileEngine then (.error .profile, current)
  else if !requests.guard then (.error .snapshotObsolete, current)
  else
    let content := v.content
    let receipt := E.protectedReceipt v
    match configDataKey v.profile with
    | none => (.error .profile, current)
    | some configKey =>
      if content.length + receipt.length > maxSecretDataBytes then
        (.error .payloadTooLarge, current)
      else if !requests.get then (.error .read, current)
      else
        match current with
        | none =>
          if !requests.reference then (.error .owner, current)
          else
            write requests.write .create v.profile current
              ⟨engineSecretType, some p.reference, some p.profileEngine,
                outputData configKey content receipt⟩
        | some secret =>
          if !p.owned secret then (.error .ownership, current)
          else if (secret.data.lookup configKey).getD [] = content &&
              (secret.data.lookup receiptDataKey).getD [] = receipt &&
              secret.data.entries.length = 2 then
            (.ok ⟨v.profile, false⟩, current)
          else
            write requests.write .update v.profile current
              { secret with
                type := engineSecretType
                engineLabel := some p.profileEngine
                data := outputData configKey content receipt }

/-! ## What is stored -/

/-- The Secret is owned and holds this artifact with its receipt. -/
structure Stores (E : Encoding) (p : SecretPublisher) (secret : Secret) (v : Validated) : Prop where
  owned : p.owned secret = true
  label : secret.engineLabel = some p.profileEngine
  engine : v.profile.engine.string = p.profileEngine
  data : ∃ configKey, configDataKey v.profile = some configKey ∧
    secret.data = outputData configKey v.content (E.protectedReceipt v)

variable {E : Encoding} {p : SecretPublisher} {v w : Validated}

theorem lookup_config {configKey content receipt : Bytes} :
    (outputData configKey content receipt).lookup configKey = some content :=
  AList.lookup_insert _

theorem lookup_receipt {configKey content receipt : Bytes} (h : configKey ≠ receiptDataKey) :
    (outputData configKey content receipt).lookup receiptDataKey = some receipt := by
  rw [outputData, AList.lookup_insert_ne h.symm, AList.lookup_insert]

theorem lookup_other {configKey content receipt key : Bytes} (hconfig : key ≠ configKey)
    (hreceipt : key ≠ receiptDataKey) :
    (outputData configKey content receipt).lookup key = none := by
  rw [outputData, AList.lookup_insert_ne hconfig, AList.lookup_insert_ne hreceipt,
    AList.lookup_empty]

/-- An artifact is stored under the key of its engine. -/
theorem configDataKey_cases (v : Validated) :
    (v.profile.engine = .mihomo ∧ configDataKey v.profile = some (ascii "config.yaml")) ∨
      (v.profile.engine = .singBox ∧ configDataKey v.profile = some (ascii "config.json")) := by
  have hknown := v.known
  simp only [Profile.known, Bool.and_eq_true, Bool.or_eq_true, decide_eq_true_eq] at hknown
  rcases hknown.1.1.1 with hengine | hengine
  · exact .inl ⟨hengine, by rw [configDataKey, hengine]⟩
  · exact .inr ⟨hengine, by rw [configDataKey, hengine]⟩

theorem configDataKey_ne_receiptDataKey {configKey : Bytes}
    (h : configDataKey v.profile = some configKey) : configKey ≠ receiptDataKey := by
  rcases configDataKey_cases v with ⟨-, hkey⟩ | ⟨-, hkey⟩
  · obtain rfl := Option.some.inj (hkey.symm.trans h)
    decide +kernel
  · obtain rfl := Option.some.inj (hkey.symm.trans h)
    decide +kernel

/-- Artifacts for the engine of one publisher are stored under the same key. -/
theorem configDataKey_eq (h : v.profile.engine.string = w.profile.engine.string) :
    configDataKey v.profile = configDataKey w.profile := by
  have hne : Engine.mihomo.string ≠ Engine.singBox.string := by decide +kernel
  rcases configDataKey_cases v with ⟨hv, hkey⟩ | ⟨hv, hkey⟩ <;>
    rcases configDataKey_cases w with ⟨hw, hkey'⟩ | ⟨hw, hkey'⟩
  · rw [hkey, hkey']
  · rw [hv, hw] at h
    exact absurd h hne
  · rw [hv, hw] at h
    exact absurd h.symm hne
  · rw [hkey, hkey']

/-- **A stored artifact is found by its receipt.** -/
theorem Stores.currentReceipt_eq {secret : Secret} (h : Stores E p secret v) (hreads : E.Reads v) :
    currentReceipt E p true (some secret) = .ok (some (E.receipt v)) := by
  obtain ⟨configKey, hkey, hdata⟩ := h.data
  have hreceipt : (secret.data.lookup receiptDataKey).getD [] = E.protectedReceipt v := by
    rw [hdata, lookup_receipt (configDataKey_ne_receiptDataKey hkey)]
    rfl
  have hcontent : (secret.data.lookup configKey).getD [] = v.content := by
    rw [hdata, lookup_config]
    rfl
  have hlabel : v.profile.engine.string = secret.engineLabel.getD [] := by
    rw [h.label, h.engine]
    rfl
  -- the loop stops at the key of the artifact
  have hfound : ∀ keys, findReceipt E secret (configKey :: keys) = .ok (E.receipt v) := by
    intro keys
    rw [findReceipt]
    simp only [hreceipt, hcontent, hreads.matches_self, hreads.restore]
    rw [if_neg (not_not.mpr hlabel)]
  -- and passes over the other one, which is absent
  have hskipped : ∀ key keys, key ≠ configKey → key ≠ receiptDataKey →
      findReceipt E secret (key :: keys) = findReceipt E secret keys := by
    intro key keys hconfig hother
    have hempty : (secret.data.lookup key).getD [] = [] := by
      rw [hdata, lookup_other hconfig hother]
      rfl
    have hnone : E.matchesProtectedReceipt [] (E.protectedReceipt v) = none := by
      rw [Option.eq_none_iff_forall_ne_some]
      intro profile hprofile
      obtain ⟨-, -, hne, -⟩ := Encoding.matchesProtectedReceipt_eq_some_iff.mp hprofile
      exact hne rfl
    rw [findReceipt]
    simp only [hreceipt, hempty, hnone]
  have hfind : findReceipt E secret [ascii "config.yaml", ascii "config.json"] =
      .ok (E.receipt v) := by
    rcases configDataKey_cases v with ⟨-, hv⟩ | ⟨-, hv⟩
    · obtain rfl := Option.some.inj (hv.symm.trans hkey)
      exact hfound _
    · obtain rfl := Option.some.inj (hv.symm.trans hkey)
      rw [hskipped _ _ (by decide +kernel) (by decide +kernel)]
      exact hfound _
  simp only [currentReceipt, Bool.not_true, Bool.false_eq_true, if_false, h.owned, hfind]
  rfl

/-- How `Publish` can end: nothing is written, or a write fails with or without the new artifact
stored, or the new artifact is stored. -/
inductive Published (E : Encoding) (p : SecretPublisher) (v : Validated)
    (current : Option Secret) : Except PublicationCode Publication × Option Secret → Prop
  | refused {code : PublicationCode} (hcode : code.publicationUncertain = false) :
    Published E p v current (.error code, current)
  | uncertain {code : PublicationCode} {stored : Option Secret}
    (hcode : code.publicationUncertain = true)
    (hstored : stored = current ∨ ∃ secret, stored = some secret ∧ Stores E p secret v) :
    Published E p v current (.error code, stored)
  | stored {publication : Publication} {secret : Secret} (hstores : Stores E p secret v) :
    Published E p v current (.ok publication, some secret)

/-- The two requests that write. -/
theorem published_write {code : PublicationCode} {desired : Secret} (result : WriteResult)
    (current : Option Secret) (hcode : code.publicationUncertain = true)
    (hdesired : Stores E p desired v) :
    Published E p v current (write result code v.profile current desired) := by
  cases result with
  | done => exact .stored hdesired
  | failed applied =>
    refine .uncertain hcode ?_
    cases applied with
    | true => exact .inr ⟨desired, rfl, hdesired⟩
    | false => exact .inl rfl

/-- **What `Publish` can do** to an output that is empty or holds an artifact of its own. -/
theorem published_publish (requests : Requests) {current : Option Secret}
    (h : ∀ secret, current = some secret → ∃ w, Stores E p secret w) :
    Published E p v current (publish E p requests current v) := by
  unfold publish
  by_cases hengine : v.profile.engine.string ≠ p.profileEngine
  · rw [if_pos hengine]
    exact .refused rfl
  rw [if_neg hengine]
  rw [not_not] at hengine
  by_cases hguard : (!requests.guard) = true
  · rw [if_pos hguard]
    exact .refused rfl
  rw [if_neg hguard]
  cases hkey : configDataKey v.profile with
  | none => exact .refused rfl
  | some configKey =>
    dsimp only
    by_cases hlarge : v.content.length + (E.protectedReceipt v).length > maxSecretDataBytes
    · rw [if_pos hlarge]
      exact .refused rfl
    rw [if_neg hlarge]
    by_cases hget : (!requests.get) = true
    · rw [if_pos hget]
      exact .refused rfl
    rw [if_neg hget]
    cases current with
    | none =>
      dsimp only
      by_cases hreference : (!requests.reference) = true
      · rw [if_pos hreference]
        exact .refused rfl
      rw [if_neg hreference]
      exact published_write _ _ rfl ⟨by simp [owned], rfl, hengine, configKey, hkey, rfl⟩
    | some secret =>
      obtain ⟨w, hw⟩ := h secret rfl
      obtain ⟨key, hwkey, hdata⟩ := hw.data
      obtain rfl : configKey = key := by
        have := configDataKey_eq (hengine.trans hw.engine.symm)
        rw [hkey, hwkey] at this
        exact Option.some.inj this
      have hcontroller : secret.controller = some p.reference := by
        have := hw.owned
        simp only [owned, Bool.and_eq_true, decide_eq_true_eq] at this
        exact this.2
      dsimp only
      simp only [hw.owned, Bool.not_true, Bool.false_eq_true, if_false]
      split_ifs with hunchanged
      · -- nothing to write: the Secret holds the artifact already
        simp only [hdata, lookup_config,
          lookup_receipt (configDataKey_ne_receiptDataKey hkey), Option.getD_some,
          Bool.and_eq_true, decide_eq_true_eq] at hunchanged
        refine .stored ⟨hw.owned, hw.label, hengine, configKey, hkey, ?_⟩
        rw [hdata, hunchanged.1.1, hunchanged.1.2]
      · exact published_write _ _ rfl
          ⟨by simp [owned, hcontroller], rfl, hengine, configKey, hkey, rfl⟩

end SecretPublisher

end Egressfox.Operator
