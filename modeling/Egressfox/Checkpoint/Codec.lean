import Egressfox.Artifact.Receipt
import Egressfox.Endpoint.ParseID
import Egressfox.Selection.Valid

/-!
# The encoding of decisions

`encodeCheckpoint` and `decodeCheckpoint` of `internal/state/sqlite.go`.

A payload is stored as itself: the JSON text in between is faithful, and only its length
is looked at.  The errors of both functions are not told apart by their callers, so here
they are an absent result.

The decoder is stricter than the check that precedes encoding: it bounds the number of
members and of cooldowns, and it takes the Unix epoch for a missing time.  A time that
does not fit in an `int64` of nanoseconds comes back as another one.
`decodeCheckpoint_payloadOf` says exactly what is read back, and `durable` is the
condition under which it is the decision that was stored.
-/

namespace Egressfox.Checkpoint

open Lib Endpoint Observation Artifact Selection

/-! ## Times -/

/-- The Unix epoch. -/
def unixEpoch : Time := 62135596800 * Duration.second

/-- `Time.UnixNano`, in `int64` arithmetic. -/
def unixNano (t : Time) : Int := int64 (t - unixEpoch)

/-- `time.Unix(0, ns)`. -/
def ofUnixNano (ns : Int) : Time := unixEpoch + ns

/-! ## Payloads -/

/-- `checkpointMember` and `checkpointCooldown`. -/
structure Entry where
  endpointID : Bytes
  revision : Bytes
  atNanos : Int
deriving DecidableEq, Repr

/-- `checkpointPayload`. -/
structure Payload where
  scope : Bytes
  targetID : Bytes
  targetRevision : Bytes
  vantage : Bytes
  kind : Kind
  profile : Profile
  policyFingerprint : Bytes
  evaluatedAt : Int
  members : List Entry
  cooldowns : List Entry
  receipt : ReceiptData
deriving DecidableEq, Repr

/-- The value of the `uint8` constant. -/
def kindCode : Kind → Int
  | .httpGet => 1
  | .other code => code.val

/-- The JSON text of an entry, whose time is stored under the given key. -/
def Entry.marshal (key : String) (entry : Entry) : Bytes :=
  Json.object [("endpoint_id", Json.string entry.endpointID),
    ("connection_revision", Json.bytes entry.revision), (key, Json.number entry.atNanos)]

/-- The JSON text of a list of entries; the nil slice is written as `null`. -/
def marshalEntries (key : String) (entries : List Entry) : Bytes :=
  if entries = [] then ascii "null" else Json.array (entries.map (Entry.marshal key))

/-- The JSON text of a profile. -/
def marshalProfile (profile : Profile) : Bytes :=
  Json.object [("Engine", Json.number profile.engine.code),
    ("Version", Json.string profile.version),
    ("RendererSchema", Json.string profile.rendererSchema),
    ("MediaType", Json.string profile.mediaType)]

/-- The fields of a payload, with their JSON texts. -/
def Payload.fields (payload : Payload) : List (String × Bytes) :=
  [("scope", Json.string payload.scope),
    ("target_id", Json.string payload.targetID),
    ("target_revision", Json.bytes payload.targetRevision),
    ("vantage", Json.string payload.vantage),
    ("kind", Json.number (kindCode payload.kind)),
    ("profile", marshalProfile payload.profile),
    ("policy_fingerprint", Json.bytes payload.policyFingerprint),
    ("evaluated_at_ns", Json.number payload.evaluatedAt),
    ("members", marshalEntries "selected_at_ns" payload.members),
    ("cooldowns", marshalEntries "until_ns" payload.cooldowns),
    ("receipt", Json.bytes payload.receipt.marshal)]

/-- The JSON text of a payload. -/
def Payload.marshal (payload : Payload) : Bytes := Json.object payload.fields

/-- The bound on the length of a payload, `4 << 20`. -/
def maxPayload : Nat := 4194304

/-- The entry of a connection and a time. -/
def encodeEntry (connection : ConnectionRef) (time : Time) : Option Entry :=
  connection.revision.map fun revision =>
    ⟨connection.id.string, revision.val, unixNano time⟩

/-- `encodeCheckpoint`. -/
def encodeCheckpoint (value : State) (receipt : Option Receipt) : Option Payload := do
  let targetRevision ← value.context.target.revision
  let receipt ← receipt
  let members ← value.members.mapM fun member => encodeEntry member.connection member.selectedAt
  let cooldowns ← value.cooldowns.mapM fun cooldown =>
    encodeEntry cooldown.connection cooldown.untilAt
  return {
    scope := value.scope
    targetID := value.context.target.id
    targetRevision := targetRevision.val
    vantage := value.context.vantage
    kind := value.context.kind
    profile := value.context.profile
    policyFingerprint := value.policyFingerprint.val
    evaluatedAt := unixNano value.evaluatedAt
    members := members
    cooldowns := cooldowns
    receipt := receipt.val }

/-- `safeID`, the check of `NewTargetID` and `NewVantageID`. -/
def safeID (value : Bytes) : Bool := safeText value

/-- 32 bytes. -/
def restoreDigest (bytes : Bytes) : Option Digest :=
  if h : bytes.length = 32 then some ⟨bytes, h⟩ else none

/-- `restoreConnection`. -/
def restoreConnection (unicode : Unicode) (rawID rawRevision : Bytes) : Option ConnectionRef := do
  let id ← (parseID unicode rawID).toOption
  let revision ← restoreDigest rawRevision
  if id.string = invalidID then none else some ⟨id, some revision⟩

/-- The connection and the time of an entry.  A time at the Unix epoch is refused. -/
def decodeEntry (unicode : Unicode) (entry : Entry) : Option (ConnectionRef × Time) := do
  let connection ← restoreConnection unicode entry.endpointID entry.revision
  if entry.atNanos = 0 then none else some (connection, ofUnixNano entry.atNanos)

/-- The bound on the number of members, and of cooldowns, of a decoded decision. -/
def maxEntries : Nat := 10000

/-- The context of a payload. -/
def decodeContext (payload : Payload) : Option Context := do
  if !safeID payload.targetID then none
  let targetRevision ← restoreDigest payload.targetRevision
  if !safeID payload.vantage then none
  let context : Context :=
    ⟨⟨payload.targetID, some targetRevision⟩, payload.vantage, payload.kind, payload.profile⟩
  context.check.toOption
  return context

/-- The bounds on a payload. -/
def Payload.bounded (payload : Payload) : Bool :=
  payload.marshal.length ≠ 0 && payload.marshal.length ≤ maxPayload &&
    payload.policyFingerprint.length = 32 && payload.members.length ≤ maxEntries &&
    payload.cooldowns.length ≤ maxEntries

/-- `decodeCheckpoint`. -/
def decodeCheckpoint (unicode : Unicode) (payload : Payload) : Option (State × Receipt) := do
  if !payload.bounded then none
  let context ← decodeContext payload
  if payload.evaluatedAt = 0 then none
  let policyFingerprint ← restoreDigest payload.policyFingerprint
  let members ← payload.members.mapM (decodeEntry unicode)
  let cooldowns ← payload.cooldowns.mapM (decodeEntry unicode)
  let value : State := {
    scope := payload.scope
    context := context
    policyFingerprint := policyFingerprint
    evaluatedAt := ofUnixNano payload.evaluatedAt
    members := members.map fun entry => ⟨entry.1, entry.2⟩
    cooldowns := cooldowns.map fun entry => ⟨entry.1, entry.2⟩ }
  value.validate.toOption
  let receipt ← restoreReceipt payload.receipt
  return (value, receipt)

/-! ## What is stored -/

/-- The invariants that the types of `observation` and `endpoint` keep: a named target and
vantage have safe names, and a connection with a revision has an issued ID. -/
structure WellTyped (unicode : Unicode) (value : State) : Prop where
  target : value.context.target.id ≠ [] → safeID value.context.target.id = true
  vantage : value.context.vantage ≠ [] → safeID value.context.vantage = true
  members : ∀ member ∈ value.members,
    member.connection.revision.isSome → member.connection.id.Issued unicode
  cooldowns : ∀ cooldown ∈ value.cooldowns,
    cooldown.connection.revision.isSome → cooldown.connection.id.Issued unicode

/-- The entry of a connection that has a revision. -/
def entryOf (connection : ConnectionRef) (time : Time) : Entry :=
  ⟨connection.id.string, (connection.revision.getD .zero).val, unixNano time⟩

/-- The payload of a valid state. -/
def payloadOf (value : State) (receipt : Receipt) : Payload where
  scope := value.scope
  targetID := value.context.target.id
  targetRevision := (value.context.target.revision.getD .zero).val
  vantage := value.context.vantage
  kind := value.context.kind
  profile := value.context.profile
  policyFingerprint := value.policyFingerprint.val
  evaluatedAt := unixNano value.evaluatedAt
  members := value.members.map fun member => entryOf member.connection member.selectedAt
  cooldowns := value.cooldowns.map fun cooldown => entryOf cooldown.connection cooldown.untilAt
  receipt := receipt.val

variable {connection : ConnectionRef} {value : State} {unicode : Unicode}

theorem encodeEntry_eq (h : connection.revision.isSome) (time : Time) :
    encodeEntry connection time = some (entryOf connection time) := by
  obtain ⟨revision, hrevision⟩ := Option.isSome_iff_exists.mp h
  simp [encodeEntry, entryOf, hrevision]

/-- An accepted context names its target and its vantage and has a target revision. -/
theorem named_of_check {context : Context} (h : context.check = .ok ()) :
    context.target.id ≠ [] ∧ context.vantage ≠ [] ∧
      ∃ revision, context.target.revision = some revision := by
  unfold Context.check at h
  split_ifs at h with hnames hrevision
  push Not at hnames
  exact ⟨hnames.1, hnames.2.1, Option.ne_none_iff_exists'.mp hrevision⟩

/-- Encoding a valid state succeeds. -/
theorem encodeCheckpoint_eq (h : value.Valid) (receipt : Receipt) :
    encodeCheckpoint value (some receipt) = some (payloadOf value receipt) := by
  obtain ⟨-, -, revision, hrevision⟩ := named_of_check h.context_ok
  have hmembers : (value.members.mapM fun member =>
      encodeEntry member.connection member.selectedAt) = some (payloadOf value receipt).members :=
    mapM_eq_some_map fun member hmember => encodeEntry_eq (h.members member hmember).2.1 _
  have hcooldowns : (value.cooldowns.mapM fun cooldown =>
      encodeEntry cooldown.connection cooldown.untilAt) =
        some (payloadOf value receipt).cooldowns :=
    mapM_eq_some_map fun cooldown hcooldown => encodeEntry_eq (h.cooldowns cooldown hcooldown).2 _
  simp [encodeCheckpoint, hrevision, hmembers, hcooldowns, payloadOf]

/-! ## What is read back -/

/-- A time after being stored. -/
def rounded (time : Time) : Time := ofUnixNano (unixNano time)

/-- A state after being stored. -/
def roundedState (value : State) : State :=
  { value with
    evaluatedAt := rounded value.evaluatedAt
    members := value.members.map fun member => ⟨member.connection, rounded member.selectedAt⟩
    cooldowns := value.cooldowns.map fun cooldown =>
      ⟨cooldown.connection, rounded cooldown.untilAt⟩ }

/-- What the decoder asks for beyond a valid state. -/
def readable (value : State) : Bool :=
  value.members.length ≤ maxEntries && value.cooldowns.length ≤ maxEntries &&
    unixNano value.evaluatedAt ≠ 0 &&
    value.members.all (fun member => unixNano member.selectedAt ≠ 0) &&
    value.cooldowns.all fun cooldown => unixNano cooldown.untilAt ≠ 0

/-- The state can be read back, and unchanged. -/
def durable (value : State) : Bool := readable value && roundedState value = value

theorem durable_iff :
    durable value = true ↔ readable value = true ∧ roundedState value = value := by
  rw [durable, Bool.and_eq_true, decide_eq_true_eq]

/-- No time read back is the zero time. -/
theorem rounded_ne_zero (time : Time) : rounded time ≠ 0 := by
  have hlow : -(2 ^ 64 / 2 : Int) ≤ unixNano time := Int.le_bmod (by norm_num)
  have hpos : (0 : Int) < 62135596800000000000 + unixNano time := by omega
  have hsum : rounded time = 62135596800000000000 + unixNano time := by
    simp [rounded, ofUnixNano, unixEpoch, Duration.second]
  rw [hsum]
  exact hpos.ne'

/-- A valid state read back is valid. -/
theorem valid_roundedState (h : value.Valid) : (roundedState value).Valid where
  scope_safe := h.scope_safe
  context_ok := h.context_ok
  fingerprint := h.fingerprint
  evaluated := rounded_ne_zero _
  members := by
    intro member hmember
    obtain ⟨original, horiginal, rfl⟩ := List.mem_map.mp hmember
    exact ⟨rounded_ne_zero _, (h.members original horiginal).2⟩
  members_nodup := by
    rw [roundedState, List.map_map]
    exact h.members_nodup
  cooldowns := by
    intro cooldown hcooldown
    obtain ⟨original, horiginal, rfl⟩ := List.mem_map.mp hcooldown
    exact ⟨rounded_ne_zero _, (h.cooldowns original horiginal).2⟩
  cooldowns_nodup := by
    rw [roundedState, List.map_map]
    exact h.cooldowns_nodup

theorem restoreDigest_val (digest : Digest) : restoreDigest digest.val = some digest := by
  rw [restoreDigest, dif_pos digest.property]

/-- A connection read back is the one stored. -/
theorem restoreConnection_eq (hid : connection.id.Issued unicode)
    (hrevision : connection.revision.isSome) :
    restoreConnection unicode connection.id.string (connection.revision.getD .zero).val =
      some connection := by
  obtain ⟨id, revision⟩ := connection
  obtain ⟨digest, rfl⟩ := Option.isSome_iff_exists.mp hrevision
  have hparse : parseID unicode id.string = .ok id := by
    rw [hid.string_eq]
    exact hid
  simp [restoreConnection, hparse, Except.toOption, restoreDigest_val, hid.string_ne]

theorem decodeEntry_entryOf (hid : connection.id.Issued unicode)
    (hrevision : connection.revision.isSome) (time : Time) :
    decodeEntry unicode (entryOf connection time) =
      if unixNano time = 0 then none else some (connection, rounded time) := by
  by_cases htime : unixNano time = 0 <;>
    simp [decodeEntry, entryOf, restoreConnection_eq hid hrevision, rounded, htime]

/-- A list of entries is read back unless one of them is at the Unix epoch. -/
theorem mapM_decodeEntry {α : Type} {connection : α → ConnectionRef} {time : α → Time} {l : List α}
    (h : ∀ a ∈ l, (connection a).id.Issued unicode ∧ (connection a).revision.isSome) :
    (l.map fun a => entryOf (connection a) (time a)).mapM (decodeEntry unicode) =
      if l.all (fun a => unixNano (time a) ≠ 0) then
        some (l.map fun a => (connection a, rounded (time a)))
      else none := by
  split_ifs with hall
  · rw [List.mapM_map]
    refine mapM_eq_some_map fun a ha => ?_
    have htime : unixNano (time a) ≠ 0 := by simpa using List.all_eq_true.mp hall a ha
    rw [Function.comp_apply, decodeEntry_entryOf (h a ha).1 (h a ha).2, if_neg htime]
  · obtain ⟨a, ha, htime⟩ : ∃ a ∈ l, unixNano (time a) = 0 := by simpa using hall
    refine mapM_eq_none (List.mem_map_of_mem ha) ?_
    rw [decodeEntry_entryOf (h a ha).1 (h a ha).2, if_pos htime]

theorem marshal_length_ne_zero (payload : Payload) : payload.marshal.length ≠ 0 := by
  simp [Payload.marshal, Json.object]

/-- The context is read back as it is. -/
theorem decodeContext_payloadOf {receipt : Receipt} (h : value.Valid)
    (htyped : WellTyped unicode value) :
    decodeContext (payloadOf value receipt) = some value.context := by
  obtain ⟨hid, hvantage, revision, hrevision⟩ := named_of_check h.context_ok
  have hcontext : (⟨⟨value.context.target.id, some revision⟩, value.context.vantage,
      value.context.kind, value.context.profile⟩ : Context) = value.context := by
    rw [← hrevision]
  simp [decodeContext, payloadOf, htyped.target hid, htyped.vantage hvantage, hrevision,
    restoreDigest_val, hcontext, h.context_ok, Except.toOption]

/-- **What is read back of a valid state.** -/
theorem decodeCheckpoint_payloadOf {receipt : Receipt} (h : value.Valid)
    (htyped : WellTyped unicode value)
    (hsize : (payloadOf value receipt).marshal.length ≤ maxPayload) :
    decodeCheckpoint unicode (payloadOf value receipt) =
      if readable value then some (roundedState value, receipt) else none := by
  have hbounded : (payloadOf value receipt).bounded =
      (decide (value.members.length ≤ maxEntries) &&
        decide (value.cooldowns.length ≤ maxEntries)) := by
    have hfingerprint : (payloadOf value receipt).policyFingerprint.length = 32 :=
      value.policyFingerprint.property
    rw [Payload.bounded, decide_eq_true hsize, decide_eq_true (marshal_length_ne_zero _),
      decide_eq_true hfingerprint]
    simp [payloadOf]
  have hmembers : (payloadOf value receipt).members.mapM (decodeEntry unicode) = _ :=
    mapM_decodeEntry fun member hmember =>
      have hsome := (h.members member hmember).2.1
      ⟨htyped.members member hmember hsome, hsome⟩
  have hcooldowns : (payloadOf value receipt).cooldowns.mapM (decodeEntry unicode) = _ :=
    mapM_decodeEntry fun cooldown hcooldown =>
      have hsome := (h.cooldowns cooldown hcooldown).2
      ⟨htyped.cooldowns cooldown hcooldown hsome, hsome⟩
  have hfingerprint : restoreDigest (payloadOf value receipt).policyFingerprint =
      some value.policyFingerprint := restoreDigest_val _
  have hreceipt : restoreReceipt (payloadOf value receipt).receipt = some receipt :=
    restoreReceipt_val receipt
  rw [decodeCheckpoint, decodeContext_payloadOf h htyped, hbounded, hmembers, hcooldowns,
    hfingerprint, hreceipt, readable]
  have hevaluated : (payloadOf value receipt).evaluatedAt = unixNano value.evaluatedAt := rfl
  rw [hevaluated]
  cases decide (value.members.length ≤ maxEntries) &&
      decide (value.cooldowns.length ≤ maxEntries) with
  | false => rfl
  | true =>
    by_cases htime : unixNano value.evaluatedAt = 0
    · simp [htime]
    cases value.members.all fun member => unixNano member.selectedAt ≠ 0 with
    | false => simp [htime]
    | true =>
      cases value.cooldowns.all fun cooldown => unixNano cooldown.untilAt ≠ 0 with
      | false => simp [htime]
      | true =>
        simp only [Bool.not_true, Bool.false_eq_true, ↓reduceIte, htime, Option.pure_def,
          Option.bind_eq_bind, Option.bind_some, List.map_map, ne_eq, not_false_eq_true,
          decide_true, Bool.and_self]
        change ((roundedState value).validate.toOption.bind fun _ =>
          some (roundedState value, receipt)) = _
        rw [State.validate_eq_ok_iff.mpr (valid_roundedState h)]
        rfl

end Egressfox.Checkpoint
