import Egressfox.Endpoint.Union
import Egressfox.Lib.Assoc
import Egressfox.Source.VMess

/-!
# Payloads, snapshots and the set of snapshots

`Parse` of `internal/source/parse.go` with the limits of `payload.go`, and the snapshots of
`snapshot.go`.  The two readers of a single input, `parseURI` and `decodeJSONInputs`, are
parameters: what `Parse` does with their results does not depend on how they read.

Whatever they read, every record of a snapshot comes from the source of the payload
(`parse_eq_ok`), and every relationship of an inventory comes from one of the records that were
merged (`deduplicate_place`).
-/

namespace Egressfox.Source

open Lib Endpoint

/-! ## Payloads -/

/-- `Limits`. -/
structure Limits where
  maxSourceBytes : Int := 0
  maxDecodedBytes : Int := 0
  maxRecords : Int := 0
  maxRecordBytes : Int := 0
deriving DecidableEq, Repr

/-- `DefaultLimits`. -/
def defaultLimits : Limits := ⟨4194304, 4194304, 10000, 16384⟩

/-- `Limits.normalized`. -/
def Limits.normalized (l : Limits) : Option Limits :=
  if l = {} then some defaultLimits
  else if l.maxSourceBytes ≤ 0 || l.maxDecodedBytes ≤ 0 || l.maxRecords ≤ 0 ||
      l.maxRecordBytes ≤ 0 then none
  else if l.maxSourceBytes > 67108864 || l.maxDecodedBytes > 67108864 ||
      l.maxRecords > 1000000 || l.maxRecordBytes > 1048576 then none
  else some l

/-- `Payload`. -/
structure Payload where
  source : Bytes
  data : Bytes
deriving DecidableEq, Repr

/-- `Inline`. -/
structure Inline where
  source : Bytes
  data : Bytes
  limits : Limits
deriving DecidableEq, Repr

/-- `NewInline`. -/
def newInline (source data : Bytes) (limits : Limits) : Option Inline :=
  if source = [] then none else limits.normalized.map (Inline.mk source data)

/-- `Inline.Acquire`, in a context that may be cancelled. -/
def Inline.acquire (s : Inline) (cancelled : Bool) : Option Payload :=
  if cancelled || decide (s.data.length > s.limits.maxSourceBytes) then none
  else some ⟨s.source, s.data⟩

/-! ## Formats -/

/-- `Format`. -/
inductive Format where
  | auto
  | uriList
  | base64URIList
  | json
deriving DecidableEq, Repr

/-- A line that `Parse` passes over. -/
def isBlank (line : Bytes) : Bool :=
  trimSpace line = [] || (ascii "#").isPrefixOf (trimSpace line)

/-- The lines of a text. -/
def splitLines (data : Bytes) : List Bytes := data.splitOn 10

def uriSchemes : List Bytes :=
  ["vless://", "trojan://", "vmess://", "ss://", "socks5://", "hysteria://", "hysteria2://",
    "hy2://", "tuic://"].map ascii

/-- `recognizableURIList`: the first line that is not blank decides. -/
def recognizableURIList (unicode : Unicode) (data : Bytes) : Bool :=
  match (splitLines data).find? fun line => !isBlank line with
  | none => true
  | some line => uriSchemes.any fun scheme => scheme.isPrefixOf (toLower unicode (trimSpace line))

/-- `decodeEnvelope`. -/
def decodeEnvelope (data : Bytes) (max : Int) : Option Bytes :=
  let compact := data.filter fun value => value ∉ ascii " \n\r\t"
  if (compact.length / 4 * 3 : Nat) > max then none
  else
    match (Base64.std.decode compact).or (Base64.rawStd.decode compact) with
    | none => none
    | some decoded => if decoded.length > max then none else some decoded

/-- `detectFormat`. -/
def detectFormat (unicode : Unicode) (data : Bytes) (limits : Limits) : Option Format :=
  let trimmed := trimSpace data
  if (ascii "[").isPrefixOf trimmed || (ascii "\x7b").isPrefixOf trimmed then some .json
  else if trimmed = [] || recognizableURIList unicode trimmed then some .uriList
  else
    match decodeEnvelope data limits.maxDecodedBytes with
    | none => none
    | some decoded =>
      if recognizableURIList unicode (trimSpace decoded) then some .base64URIList else none

/-! ## Inputs -/

/-- `parseInput`: a link that is still to be read, or what a JSON decoder made of a record. -/
inductive Input where
  | uri (line : Bytes)
  | decoded (result : Except Diagnostic ParseInput)

/-- The readers of single inputs. -/
structure Readers where
  /-- `parseURI`; the flag admits links to HTTP proxies. -/
  parseURI : Bytes → Bool → Except Diagnostic ParseInput
  /-- `decodeJSONInputs`. -/
  decodeJSONInputs : Bytes → Limits → Option (List Input)

/-- `Admission`. -/
structure Admission where
  allowPartial : Bool
  allowedProtocol : List Protocol
  denyInsecureTLS : Bool
deriving DecidableEq, Repr

/-- `ParseOptions`. -/
structure ParseOptions where
  format : Format
  limits : Limits
  admission : Admission
deriving DecidableEq, Repr

/-- `Report`. -/
structure Report where
  accepted : Nat := 0
  malformed : Nat := 0
  unsupported : Nat := 0
  invalid : Nat := 0
  filtered : Nat := 0
  /-- The diagnostics with the numbers of their records. -/
  diagnostics : List (Nat × Diagnostic) := []
deriving DecidableEq, Repr

/-- `Report.Rejected`. -/
def Report.rejected (r : Report) : Nat := r.malformed + r.unsupported + r.invalid + r.filtered

/-- `addDiagnostic`. -/
def Report.addDiagnostic (r : Report) (number : Nat) (diagnostic : Diagnostic) : Report :=
  let r := { r with diagnostics := r.diagnostics ++ [(number, diagnostic)] }
  match diagnostic.kind with
  | .malformed => { r with malformed := r.malformed + 1 }
  | .unsupported => { r with unsupported := r.unsupported + 1 }
  | .invalid => { r with invalid := r.invalid + 1 }
  | .filtered => { r with filtered := r.filtered + 1 }

/-- The failure codes of `Parse`. -/
inductive ParseFailure where
  | invalidLimits
  | sourceTooLarge
  | unrecognizedFormat
  | malformedBase64
  | invalidJSONSubscription
  | tooManyRecords
  | internalRecordID
  | internalRecord
  | noAcceptedRecords
  | partialSnapshot
  | inventoryConflict
deriving DecidableEq, Repr

/-- `filtered`. -/
def filtered (configuration : Configuration) (admission : Admission) : Option String :=
  if admission.allowedProtocol ≠ [] && configuration.protocol ∉ admission.allowedProtocol then
    some "protocol_filtered"
  else if admission.denyInsecureTLS && configuration.tls.insecureSkipVerify then
    some "insecure_tls_filtered"
  else none

/-- `Snapshot`. -/
structure Snapshot where
  source : Bytes
  records : List Record
deriving DecidableEq, Repr

/-- The state of the loop of `Parse`. -/
structure ParseState where
  records : List Record := []
  report : Report := {}
  number : Nat := 0
deriving DecidableEq, Repr

/-- The aliases of a record: its name, if it has one. -/
def ParseInput.aliases (input : ParseInput) : List Bytes :=
  if input.name = [] then [] else [input.name]

section Parse

variable (unicode : Unicode) (sum256 : Bytes → Digest) (readers : Readers)

/-- A record for an accepted input, or why there is none. -/
def newSourceRecord (source : Bytes) (admission : Admission) (input : ParseInput) :
    Except ParseFailure (Except Diagnostic Record) :=
  match filtered input.configuration admission with
  | some code => .ok (.error ⟨.filtered, code⟩)
  | none =>
    match newRecordID (input.configuration.identity sum256).id.value with
    | .error _ => .error .internalRecordID
    | .ok record =>
      match newProvenance unicode source record input.aliases with
      | .error _ => .ok (.error ⟨.invalid, "invalid_alias"⟩)
      | .ok provenance =>
        match newRecord unicode input.configuration [provenance] with
        | .error _ => .error .internalRecord
        | .ok record => .ok (.ok record)

/-- What is read of an input that is not blank. -/
def readInput (limits : Limits) (allowHTTPProxyURI : Bool) : Input → Except Diagnostic ParseInput
  | .uri line =>
    if line.length > limits.maxRecordBytes then Source.malformed "record_too_large"
    else readers.parseURI line allowHTTPProxyURI
  | .decoded result => result

/-- Whether the loop passes over an input without counting it. -/
def Input.blank : Input → Bool
  | .uri line => isBlank line
  | .decoded _ => false

/-- One step of the loop of `Parse`. -/
def parseStep (source : Bytes) (limits : Limits) (allowHTTPProxyURI : Bool) (admission : Admission)
    (state : ParseState) (input : Input) : Except ParseFailure ParseState :=
  if input.blank then .ok state
  else
    let number := state.number + 1
    if number > limits.maxRecords then .error .tooManyRecords
    else
      let reject (diagnostic : Diagnostic) : ParseState :=
        { state with report := state.report.addDiagnostic number diagnostic, number }
      match readInput readers limits allowHTTPProxyURI input with
      | .error diagnostic => .ok (reject diagnostic)
      | .ok read =>
        match newSourceRecord unicode sum256 source admission read with
        | .error code => .error code
        | .ok (.error diagnostic) => .ok (reject diagnostic)
        | .ok (.ok record) =>
          .ok ⟨state.records ++ [record],
            { state.report with accepted := state.report.accepted + 1 }, number⟩

/-- The inputs of a payload, and the format that was found. -/
def decodeInputs (format : Format) (limits : Limits) (data : Bytes) :
    Except ParseFailure (Format × List Input) :=
  let lines (data : Bytes) : List Input :=
    (splitLines data).map fun line => .uri (if line.getLast? = some 13 then line.dropLast else line)
  let found := if format = .auto then detectFormat unicode data limits else some format
  match found with
  | none | some .auto => .error .unrecognizedFormat
  | some .uriList => .ok (.uriList, lines data)
  | some .base64URIList =>
    match decodeEnvelope data limits.maxDecodedBytes with
    | none => .error .malformedBase64
    | some decoded => .ok (.base64URIList, lines decoded)
  | some .json =>
    match readers.decodeJSONInputs data limits with
    | none => .error .invalidJSONSubscription
    | some inputs => .ok (.json, inputs)

/-- All that `Parse` returns; a failure goes with the report of what was read before it. -/
structure ParseResult where
  snapshot : Snapshot := ⟨[], []⟩
  report : Report := {}
  failure : Option ParseFailure := none
deriving DecidableEq, Repr

/-- The loop of `Parse` up to its end or the first failure, with the state it was left in. -/
def parseLoop (step : ParseState → Input → Except ParseFailure ParseState) :
    ParseState → List Input → ParseState × Option ParseFailure
  | state, [] => (state, none)
  | state, input :: inputs =>
    match step state input with
    | .error failure => (state, some failure)
    | .ok next => parseLoop step next inputs

/-- The part of `Parse` behind its loop. -/
def parseEnd (source : Bytes) (admission : Admission) :
    ParseState × Option ParseFailure → ParseResult
  | (state, some failure) => { report := state.report, failure }
  | (state, none) =>
    if state.report.accepted = 0 && state.report.rejected > 0 then
      { report := state.report, failure := some .noAcceptedRecords }
    else if state.report.rejected > 0 && !admission.allowPartial then
      { report := state.report, failure := some .partialSnapshot }
    else
      match deduplicate unicode sum256 state.records with
      | .error _ => { report := state.report, failure := some .inventoryConflict }
      | .ok inventory => { snapshot := ⟨source, inventory⟩, report := state.report }

/-- `Parse`. -/
def parseResult (payload : Payload) (options : ParseOptions) : ParseResult :=
  match options.limits.normalized with
  | none => { failure := some .invalidLimits }
  | some limits =>
    if payload.data.length > limits.maxSourceBytes then { failure := some .sourceTooLarge }
    else
      match decodeInputs unicode readers options.format limits payload.data with
      | .error failure => { failure := some failure }
      | .ok (format, inputs) =>
        let allowHTTPProxyURI := decide (format ≠ .json) && decide (options.format ≠ .auto)
        parseEnd unicode sum256 payload.source options.admission
          (parseLoop (parseStep unicode sum256 readers payload.source limits allowHTTPProxyURI
            options.admission) {} inputs)

/-- `Parse` for a caller that does not look at the report of a failure. -/
def parse (payload : Payload) (options : ParseOptions) : Except ParseFailure (Snapshot × Report) :=
  let result := parseResult unicode sum256 readers payload options
  match result.failure with
  | none => .ok (result.snapshot, result.report)
  | some failure => .error failure

end Parse

/-! ## Snapshots -/

/-- `Set`: the snapshots by source. -/
abbrev SnapshotSet := Assoc Bytes Snapshot

/-- The checks of `Set.Replace`, which look at the snapshot only; what passes is put into the
set under its source. -/
def Snapshot.acceptable (snapshot : Snapshot) (allowEmpty : Bool) : Bool :=
  snapshot.source ≠ [] && (snapshot.records.length ≠ 0 || allowEmpty)

/-- The records of a set, in the order of the sources. -/
def SnapshotSet.records (set : SnapshotSet) : List Record :=
  (sortSlice (fun a b => a < b) set.keys).flatMap fun key =>
    ((set.lookup key).map Snapshot.records).getD []

/-- `Set.Inventory`. -/
def SnapshotSet.inventory (unicode : Unicode) (sum256 : Bytes → Digest) (set : SnapshotSet) :
    Except Endpoint.Error (List Record) :=
  deduplicate unicode sum256 set.records

/-! ## Where records come from -/

section Origin

variable {unicode : Unicode} {sum256 : Bytes → Digest} {readers : Readers}
variable {P : Bytes → Bytes → Prop}

/-- All relationships of the records are at places, a source and a record of it, with a
property. -/
def FromPlaces (P : Bytes → Bytes → Prop) (records : List Record) : Prop :=
  ∀ record ∈ records, ∀ p ∈ record.provenance, P p.source p.record

theorem fromPlaces_nil : FromPlaces P [] := fun _ hr => (nomatch hr)

theorem mergeProvenanceStep_place {merged : List Provenance} {p : Provenance}
    (hmerged : ∀ q ∈ merged, P q.source q.record) (hp : P p.source p.record) :
    ∀ q ∈ mergeProvenanceStep unicode merged p, P q.source q.record := by
  unfold mergeProvenanceStep
  split_ifs
  · intro q hq
    obtain ⟨q', hq', rfl⟩ := List.mem_map.mp hq
    split_ifs
    · exact hmerged q' hq'
    · exact hmerged q' hq'
  · intro q hq
    rcases List.mem_append.mp hq with hq | hq
    · exact hmerged q hq
    · rwa [List.mem_singleton.mp hq]

/-- Merged relationships are at no places but those that are merged. -/
theorem mergeProvenance_place {groups : List (List Provenance)}
    (h : ∀ p ∈ groups.flatten, P p.source p.record) :
    ∀ q ∈ mergeProvenance unicode groups, P q.source q.record := by
  have hfold : ∀ (l merged : List Provenance), (∀ p ∈ l, P p.source p.record) →
      (∀ q ∈ merged, P q.source q.record) →
      ∀ q ∈ l.foldl (mergeProvenanceStep unicode) merged, P q.source q.record := by
    intro l
    induction l with
    | nil => exact fun merged _ hmerged => hmerged
    | cons p l ih =>
      intro merged hl hmerged
      apply ih
      · exact fun q hq => hl q (List.mem_cons_of_mem _ hq)
      · exact mergeProvenanceStep_place hmerged (hl p List.mem_cons_self)
  intro q hq
  exact hfold groups.flatten [] h (fun _ hq => (nomatch hq)) q ((sortSlice_perm _ _).mem_iff.mp hq)

theorem deduplicateStep_place {result result' : List Record} {record : Record}
    (h : deduplicateStep unicode sum256 result record = .ok result')
    (hresult : FromPlaces P result) (hrecord : FromPlaces P [record]) :
    FromPlaces P result' := by
  unfold deduplicateStep at h
  split at h
  · rw [← Except.ok.inj h]
    exact hrecord
  next last hlast =>
    split_ifs at h with hequal
    · rw [← Except.ok.inj h]
      intro r hr
      rcases List.mem_append.mp hr with hr | hr
      · exact hresult r hr
      · exact hrecord r hr
    · obtain ⟨merged, hmerged, h⟩ := bind_eq_ok.mp h
      rw [← Except.ok.inj h]
      intro r hr
      rcases List.mem_append.mp hr with hr | hr
      · exact hresult r (List.mem_of_mem_dropLast hr)
      · rw [List.mem_singleton.mp hr, mergeMatchingRecords_eq_ok hmerged]
        apply mergeProvenance_place
        intro p hp
        rcases List.mem_append.mp (by simpa using hp) with hp | hp
        · exact hresult last (List.mem_of_getLast? hlast) p hp
        · exact hrecord record List.mem_cons_self p hp

/-- **An inventory has no places but those of its records.** -/
theorem deduplicate_place {records inventory : List Record}
    (h : deduplicate unicode sum256 records = .ok inventory) (hrecords : FromPlaces P records) :
    FromPlaces P inventory := by
  simp only [deduplicate, ite_invalid_eq_ok] at h
  refine foldlM_invariant ?_ fromPlaces_nil h.2
  intro record hrecord result result' hresult hstep
  refine deduplicateStep_place hstep hresult fun r hr => ?_
  rw [List.mem_singleton.mp hr]
  exact hrecords record ((sortSlice_perm _ _).mem_iff.mp hrecord)

theorem newSourceRecord_source {source : Bytes} {admission : Admission} {input : ParseInput}
    {record : Record}
    (h : newSourceRecord unicode sum256 source admission input = .ok (.ok record)) :
    ∀ p ∈ record.provenance, p.source = source := by
  unfold newSourceRecord at h
  split at h
  · cases h
  split at h
  · cases h
  split at h
  · cases h
  next provenance hprovenance =>
    split at h
    · cases h
    next record' hrecord =>
      obtain rfl : record' = record := by
        injection h with h
        injection h
      simp only [newProvenance, ite_invalid_eq_ok] at hprovenance
      obtain ⟨-, -, hprovenance⟩ := hprovenance
      obtain ⟨normalized, -, hprovenance⟩ := bind_eq_ok.mp hprovenance
      obtain rfl := Except.ok.inj hprovenance
      simp only [newRecord, ite_invalid_eq_ok] at hrecord
      obtain ⟨-, -, -, hrecord⟩ := hrecord
      obtain rfl := Except.ok.inj hrecord
      exact mergeProvenance_place (P := fun found _ => found = source) (by simp)

theorem parseStep_source {source : Bytes} {limits : Limits} {allowHTTPProxyURI : Bool}
    {admission : Admission} {state state' : ParseState} {input : Input}
    (h : parseStep unicode sum256 readers source limits allowHTTPProxyURI admission state input =
      .ok state') (hstate : FromPlaces (fun found _ => found = source) state.records) :
    FromPlaces (fun found _ => found = source) state'.records := by
  unfold parseStep at h
  dsimp only at h
  split_ifs at h
  · rwa [← Except.ok.inj h]
  · split at h
    · rw [← Except.ok.inj h]
      exact hstate
    split at h
    · cases h
    · rw [← Except.ok.inj h]
      exact hstate
    next record hrecord =>
      rw [← Except.ok.inj h]
      intro r hr
      rcases List.mem_append.mp hr with hr | hr
      · exact hstate r hr
      · rw [List.mem_singleton.mp hr]
        exact newSourceRecord_source hrecord

theorem parseLoop_invariant {P : ParseState → Prop}
    {step : ParseState → Input → Except ParseFailure ParseState}
    (hstep : ∀ state input state', step state input = .ok state' → P state → P state')
    {state : ParseState} (h : P state) (inputs : List Input) :
    P (parseLoop step state inputs).1 := by
  induction inputs generalizing state with
  | nil => exact h
  | cons input inputs ih =>
    rw [parseLoop]
    cases hresult : step state input with
    | error failure => exact h
    | ok next => exact ih (hstep state input next hresult h)

/-- A result without a failure has the records of the loop, merged. -/
theorem parseEnd_eq {source : Bytes} {admission : Admission} {state : ParseState}
    {failure : Option ParseFailure}
    (h : (parseEnd unicode sum256 source admission (state, failure)).failure = none) :
    failure = none ∧ (admission.allowPartial = false → state.report.rejected = 0) ∧
      ∃ inventory, deduplicate unicode sum256 state.records = .ok inventory ∧
        parseEnd unicode sum256 source admission (state, failure) =
          { snapshot := ⟨source, inventory⟩, report := state.report } := by
  cases failure with
  | some failure => cases h
  | none =>
    rw [parseEnd] at h ⊢
    split_ifs at h ⊢ with hnone hpartial
    cases hinventory : deduplicate unicode sum256 state.records with
    | error e =>
      rw [hinventory] at h
      cases h
    | ok inventory =>
      refine ⟨rfl, fun hwhole => ?_, inventory, rfl, rfl⟩
      simpa [hwhole] using hpartial

/-- There is nothing to return before the loop, or the loop is run. -/
theorem parseResult_cases (payload : Payload) (options : ParseOptions) :
    (∃ failure, parseResult unicode sum256 readers payload options =
      { failure := some failure }) ∨
    ∃ limits format inputs, options.limits.normalized = some limits ∧
      decodeInputs unicode readers options.format limits payload.data = .ok (format, inputs) ∧
      parseResult unicode sum256 readers payload options =
        parseEnd unicode sum256 payload.source options.admission
          (parseLoop (parseStep unicode sum256 readers payload.source limits
            (decide (format ≠ .json) && decide (options.format ≠ .auto)) options.admission) {}
            inputs) := by
  unfold parseResult
  cases options.limits.normalized with
  | none => exact .inl ⟨_, rfl⟩
  | some limits =>
    dsimp only
    split_ifs
    · exact .inl ⟨_, rfl⟩
    cases hdecode : decodeInputs unicode readers options.format limits payload.data with
    | error failure => exact .inl ⟨failure, rfl⟩
    | ok decoded => exact .inr ⟨limits, decoded.1, decoded.2, rfl, hdecode, rfl⟩

/-- **A snapshot belongs to the source of its payload**, and so do all its records. -/
theorem parse_eq_ok {payload : Payload} {options : ParseOptions} {snapshot : Snapshot}
    {report : Report} (h : parse unicode sum256 readers payload options = .ok (snapshot, report)) :
    snapshot.source = payload.source ∧
      FromPlaces (fun found _ => found = payload.source) snapshot.records := by
  unfold parse at h
  dsimp only at h
  rcases @parseResult_cases unicode sum256 readers payload options with
    ⟨failure, heq⟩ | ⟨limits, format, inputs, -, -, heq⟩
  · rw [heq] at h
    cases h
  rw [heq] at h
  split at h
  next hnone =>
    obtain ⟨-, -, inventory, hinventory, hresult⟩ := parseEnd_eq hnone
    obtain ⟨rfl, -⟩ := Prod.mk.inj (Except.ok.inj h)
    rw [hresult]
    refine ⟨rfl, deduplicate_place hinventory (parseLoop_invariant
      (P := fun state => FromPlaces (fun found _ => found = payload.source) state.records)
      (fun _ _ _ hstep hstate => parseStep_source hstep hstate) fromPlaces_nil inputs)⟩
  · cases h

/-- A record of a set is in one of its snapshots. -/
theorem SnapshotSet.mem_records {set : SnapshotSet} {record : Record} (h : record ∈ set.records) :
    ∃ key snapshot, set.lookup key = some snapshot ∧ record ∈ snapshot.records := by
  obtain ⟨key, -, hrecord⟩ := List.mem_flatMap.mp h
  cases hlookup : set.lookup key with
  | none =>
    rw [hlookup] at hrecord
    cases hrecord
  | some snapshot =>
    rw [hlookup] at hrecord
    exact ⟨key, snapshot, hlookup, hrecord⟩

end Origin

end Egressfox.Source
