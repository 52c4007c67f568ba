import Egressfox.Lib.Cut
import Egressfox.Endpoint.ParseID
import Egressfox.Source.Parse

/-!
# The accounts of `Parse`

What `Parse` says about its inputs: each input that is not blank is counted once, a snapshot has
the identities of what was accepted, and there is a snapshot only without a failure.  For lists
of links the order of the lines does not matter.

The verdict over an input depends on the input alone (`verdict`).  The state of the loop is what
the verdicts add up to (`parseLoop_spec`), and sums do not depend on an order.  The one
exception is a loop that stops because there are too many records: its report is about the inputs
before the stop, and these are others in another order.
-/

namespace Egressfox.Source

open Lib Endpoint

/-! ## Assumptions on the readers -/

/-- The configurations that the readers return are made by the constructors of the package
`endpoint`. -/
structure Readers.Sound (unicode : Unicode) (readers : Readers) : Prop where
  uri : ∀ line allowHTTPProxyURI read, readers.parseURI line allowHTTPProxyURI = .ok read →
    read.configuration.Built unicode
  json : ∀ data limits inputs, readers.decodeJSONInputs data limits = some inputs →
    ∀ read, Input.decoded (.ok read) ∈ inputs → read.configuration.Built unicode

/-- A value of the type `SourceID`: the zero value or one made by `NewSourceID`. -/
def IsSourceID (source : Bytes) : Prop := source = [] ∨ newSourceID source = .ok source

/-! ## Verdicts -/

section

variable (unicode : Unicode) (sum256 : Bytes → Digest) (readers : Readers) (source : Bytes)
  (limits : Limits) (allowHTTPProxyURI : Bool) (admission : Admission)

/-- What the loop makes of an input that is not blank. -/
def verdict (input : Input) : Except ParseFailure (Except Diagnostic Record) :=
  match readInput readers limits allowHTTPProxyURI input with
  | .error diagnostic => .ok (.error diagnostic)
  | .ok read => newSourceRecord unicode sum256 source admission read

/-- An input is accepted with a configuration. -/
def Accepts (input : Input) (configuration : Configuration) : Prop :=
  input.blank = false ∧ ∃ read record,
    readInput readers limits allowHTTPProxyURI input = .ok read ∧
    newSourceRecord unicode sum256 source admission read = .ok (.ok record) ∧
    read.configuration = configuration

end

/-- The verdicts over the inputs that are not blank. -/
def verdicts (judge : Input → Except ParseFailure (Except Diagnostic Record))
    (inputs : List Input) : List (Except Diagnostic Record) :=
  (inputs.filter fun input => !input.blank).filterMap fun input => (judge input).toOption

/-- No input stops the loop by itself. -/
def Judged (judge : Input → Except ParseFailure (Except Diagnostic Record))
    (inputs : List Input) : Prop :=
  ∀ input ∈ inputs, input.blank = false → ∃ v, judge input = .ok v

/-- A verdict is added to the state of the loop. -/
def ParseState.add (state : ParseState) : Except Diagnostic Record → ParseState
  | .error diagnostic =>
    { state with
      report := state.report.addDiagnostic (state.number + 1) diagnostic
      number := state.number + 1 }
  | .ok record =>
    ⟨state.records ++ [record], { state.report with accepted := state.report.accepted + 1 },
      state.number + 1⟩

/-- A count of a report: of the accepted inputs, or of the rejected inputs of a kind. -/
def Report.count (report : Report) : Option DiagnosticKind → Nat
  | none => report.accepted
  | some .malformed => report.malformed
  | some .unsupported => report.unsupported
  | some .invalid => report.invalid
  | some .filtered => report.filtered

/-- The count that an input belongs to. -/
def category : Except Diagnostic Record → Option DiagnosticKind
  | .ok _ => none
  | .error diagnostic => some diagnostic.kind

theorem count_add (state : ParseState) (v : Except Diagnostic Record)
    (kind : Option DiagnosticKind) :
    (state.add v).report.count kind =
      state.report.count kind + if category v = kind then 1 else 0 := by
  cases v with
  | ok record => cases kind with
    | none => rfl
    | some kind => cases kind <;> rfl
  | error diagnostic =>
    obtain ⟨found, code⟩ := diagnostic
    cases kind with
    | none => cases found <;> rfl
    | some kind => cases found <;> cases kind <;> rfl

theorem accepted_add_rejected (report : Report) : report.accepted + report.rejected =
    report.count none + (report.count (some .malformed) + report.count (some .unsupported) +
      report.count (some .invalid) + report.count (some .filtered)) := rfl

theorem total_add (state : ParseState) (v : Except Diagnostic Record) :
    (state.add v).report.accepted + (state.add v).report.rejected =
      state.report.accepted + state.report.rejected + 1 := by
  rw [accepted_add_rejected, accepted_add_rejected]
  simp only [count_add]
  cases hkind : category v with
  | none => simp; omega
  | some kind => cases kind <;> simp <;> omega

/-! ## The loop -/

section

variable {state : ParseState} {vs vs' : List (Except Diagnostic Record)}

/-- The counts of a run. -/
theorem count_foldl_add (kind : Option DiagnosticKind) :
    (vs.foldl ParseState.add state).report.count kind =
      state.report.count kind + vs.countP fun v => category v = kind := by
  induction vs generalizing state with
  | nil => rfl
  | cons v vs ih =>
    rw [List.foldl_cons, ih, count_add, List.countP_cons]
    simp only [decide_eq_true_eq]
    omega

theorem total_foldl_add (state : ParseState) (vs : List (Except Diagnostic Record)) :
    (vs.foldl ParseState.add state).report.accepted +
        (vs.foldl ParseState.add state).report.rejected =
      state.report.accepted + state.report.rejected + vs.length := by
  induction vs generalizing state with
  | nil => rfl
  | cons v vs ih =>
    rw [List.foldl_cons, ih, total_add, List.length_cons]
    omega

/-- The records of a run. -/
theorem records_foldl_add :
    (vs.foldl ParseState.add state).records = state.records ++ vs.filterMap Except.toOption := by
  induction vs generalizing state with
  | nil => simp
  | cons v vs ih =>
    rw [List.foldl_cons, ih]
    cases v with
    | error diagnostic => rfl
    | ok record => exact List.append_assoc _ _ _

end

variable {state : ParseState} {input : Input} {inputs : List Input} {data : Bytes}

section

variable {unicode : Unicode} {sum256 : Bytes → Digest} {readers : Readers} {source : Bytes}
  {limits : Limits} {allowHTTPProxyURI : Bool} {admission : Admission}

/-- A step skips a blank input, and adds the verdict over another one unless there are too many
records. -/
structure Adds (judge : Input → Except ParseFailure (Except Diagnostic Record)) (maxRecords : Int)
    (step : ParseState → Input → Except ParseFailure ParseState) : Prop where
  blank : ∀ {state input}, input.blank = true → step state input = .ok state
  judged : ∀ {state input v}, input.blank = false → judge input = .ok v →
    step state input =
      if (state.number + 1 : Nat) > maxRecords then .error .tooManyRecords else .ok (state.add v)

theorem adds_parseStep :
    Adds (verdict unicode sum256 readers source limits allowHTTPProxyURI admission)
      limits.maxRecords
      (parseStep unicode sum256 readers source limits allowHTTPProxyURI admission) where
  blank h := if_pos h
  judged := by
    intro state input v hblank hv
    unfold verdict at hv
    unfold parseStep
    rw [hblank, if_neg Bool.false_ne_true]
    dsimp only
    congr 1
    cases hread : readInput readers limits allowHTTPProxyURI input with
    | error diagnostic =>
      rw [hread] at hv
      obtain rfl := Except.ok.inj hv
      rfl
    | ok read =>
      rw [hread] at hv
      dsimp only at hv ⊢
      rw [hv]
      cases v with
      | error diagnostic => rfl
      | ok record => rfl

section

variable {judge : Input → Except ParseFailure (Except Diagnostic Record)}

theorem verdicts_cons_of_blank (hblank : input.blank = true) :
    verdicts judge (input :: inputs) = verdicts judge inputs := by
  simp [verdicts, hblank]

theorem verdicts_cons {v : Except Diagnostic Record} (hblank : input.blank = false)
    (hv : judge input = .ok v) : verdicts judge (input :: inputs) = v :: verdicts judge inputs := by
  simp [verdicts, hblank, hv, Except.toOption]

/-- Each input that is not blank has a verdict. -/
theorem length_verdicts (h : Judged judge inputs) :
    (verdicts judge inputs).length = (inputs.filter fun input => !input.blank).length := by
  induction inputs with
  | nil => rfl
  | cons input inputs ih =>
    have ih := ih fun input hinput => h input (List.mem_cons_of_mem _ hinput)
    cases hblank : input.blank with
    | true =>
      rw [verdicts_cons_of_blank hblank, ih]
      simp [hblank]
    | false =>
      obtain ⟨v, hv⟩ := h input List.mem_cons_self hblank
      rw [verdicts_cons hblank hv, List.length_cons, ih]
      simp [hblank]

/-- **The loop adds up the verdicts**, unless there are too many records. -/
theorem parseLoop_spec {step : ParseState → Input → Except ParseFailure ParseState}
    {maxRecords : Int} (hstep : Adds judge maxRecords step) (h : Judged judge inputs)
    (state : ParseState) :
    if (state.number + (verdicts judge inputs).length : Nat) ≤ maxRecords ∨
        verdicts judge inputs = [] then
      parseLoop step state inputs = ((verdicts judge inputs).foldl ParseState.add state, none)
    else ∃ stopped, parseLoop step state inputs = (stopped, some .tooManyRecords) := by
  induction inputs generalizing state with
  | nil =>
    rw [if_pos (.inr rfl)]
    rfl
  | cons input inputs ih =>
    have ih := ih fun input hinput => h input (List.mem_cons_of_mem _ hinput)
    cases hblank : input.blank with
    | true =>
      rw [verdicts_cons_of_blank hblank, parseLoop, hstep.blank hblank]
      exact ih state
    | false =>
      obtain ⟨v, hv⟩ := h input List.mem_cons_self hblank
      rw [verdicts_cons hblank hv, parseLoop, hstep.judged hblank hv]
      have hnumber : (state.add v).number = state.number + 1 := by cases v <;> rfl
      have ih := ih (state.add v)
      rw [hnumber] at ih
      by_cases hmany : (state.number + 1 : Nat) > maxRecords
      · rw [if_pos hmany, if_neg]
        · exact ⟨state, rfl⟩
        · rw [List.length_cons]
          rintro (hfits | hnil)
          · omega
          · cases hnil
      · rw [if_neg hmany]
        dsimp only
        by_cases hfits : (state.number + 1 + (verdicts judge inputs).length : Nat) ≤ maxRecords
        · rw [if_pos (.inl hfits)] at ih
          rw [if_pos (.inl (by rw [List.length_cons]; omega)), ih, List.foldl_cons]
        · have hne : verdicts judge inputs ≠ [] := fun hnil => by
            rw [hnil, List.length_nil] at hfits
            omega
          rw [if_neg (not_or.mpr ⟨hfits, hne⟩)] at ih
          rw [if_neg]
          · exact ih
          · rw [List.length_cons]
            rintro (hfits' | hnil)
            · omega
            · cases hnil

end

end

/-! ## Records -/

/-- The ID of a valid configuration is a record ID. -/
theorem newRecordID_identity (sum256 : Bytes → Digest) {c : Configuration} (h : c.valid = true) :
    newRecordID (c.identity sum256).id.value = .ok (c.identity sum256).id.value := by
  obtain ⟨version, hversion, digest, hvalue⟩ : ∃ version ∈ idVersions, ∃ digest,
      (c.identity sum256).id.value = idText version digest := by
    rw [Configuration.identity, dif_pos h]
    refine ⟨c.idVersion, ?_, _, rfl⟩
    unfold Configuration.idVersion
    split_ifs <;> decide
  have hlength : (idText version digest).length = 56 := by
    rw [idText, List.length_append, List.length_map, length_encodeDigits,
      length_of_mem_idVersions hversion, digest.property]
  have hbytes : (idText version digest).all isProvenanceByte = true := by
    have hversions : ∀ v ∈ idVersions, ∀ b ∈ v, isProvenanceByte b = true := by decide +kernel
    have hdigits : ∀ b ∈ base32Std, isProvenanceByte (lowerASCII b) = true := by decide +kernel
    rw [List.all_eq_true]
    intro b hb
    rcases List.mem_append.mp hb with hb | hb
    · exact hversions version hversion b hb
    · obtain ⟨digit, hdigit, rfl⟩ := List.mem_map.mp hb
      exact hdigits digit (mem_of_mem_encodeDigits alphabet_base32Std hdigit)
  rw [hvalue, newRecordID, validateProvenanceID, hlength, hbytes]
  rfl

section

variable {unicode : Unicode} {sum256 : Bytes → Digest} {source : Bytes} {admission : Admission}
  {read : ParseInput}

/-- **A configuration made by a constructor does not stop the loop.** -/
theorem newSourceRecord_of_built (hbuilt : read.configuration.Built unicode) :
    ∃ v, newSourceRecord unicode sum256 source admission read = .ok v := by
  have hvalid := hbuilt.shaped.valid
  unfold newSourceRecord
  cases filtered read.configuration admission with
  | some code => exact ⟨_, rfl⟩
  | none =>
    rw [newRecordID_identity sum256 hvalid]
    dsimp only
    cases hprovenance : newProvenance unicode source (read.configuration.identity sum256).id.value
      read.aliases with
    | error e => exact ⟨_, rfl⟩
    | ok provenance =>
      have hnamed : provenance.valid = true := by
        simp only [newProvenance, ite_invalid_eq_ok] at hprovenance
        obtain ⟨hsource, hrecord, hprovenance⟩ := hprovenance
        obtain ⟨normalized, -, hprovenance⟩ := bind_eq_ok.mp hprovenance
        obtain rfl := Except.ok.inj hprovenance
        simp [Provenance.valid, hsource, hrecord]
      have hnew : newRecord unicode read.configuration [provenance] =
          .ok ⟨read.configuration, mergeProvenance unicode [[provenance]]⟩ := by
        simp [newRecord, hvalid, hnamed]
      dsimp only
      rw [hnew]
      exact ⟨_, rfl⟩

/-- What an accepted record is made of. -/
theorem newSourceRecord_accepted (hsource : IsSourceID source)
    (hbuilt : read.configuration.Built unicode) {record : Record}
    (h : newSourceRecord unicode sum256 source admission read = .ok (.ok record)) :
    record.New unicode ∧ record.configuration = read.configuration ∧
      filtered read.configuration admission = none := by
  unfold newSourceRecord at h
  split at h
  · cases h
  next hfiltered =>
    rw [newRecordID_identity sum256 hbuilt.shaped.valid] at h
    dsimp only at h
    split at h
    · cases h
    next provenance hprovenance =>
      split at h
      · cases h
      next record' hrecord =>
        obtain rfl : record' = record := by
          injection h with h
          injection h
        have hid : newSourceID source = .ok source := by
          rcases hsource with rfl | hid
          · cases hprovenance
          · exact hid
        refine ⟨⟨read.configuration, [provenance], hbuilt, ?_, hrecord⟩, ?_, hfiltered⟩
        · intro p hp
          rw [List.mem_singleton.mp hp]
          exact ⟨source, _, read.aliases, hid, newRecordID_identity sum256 hbuilt.shaped.valid,
            hprovenance⟩
        · simp only [newRecord, ite_invalid_eq_ok] at hrecord
          obtain ⟨-, -, -, hrecord⟩ := hrecord
          rw [← Except.ok.inj hrecord]

/-- What passes the filter. -/
theorem filtered_eq_none {c : Configuration} (h : filtered c admission = none) :
    (admission.allowedProtocol ≠ [] → c.protocol ∈ admission.allowedProtocol) ∧
      (admission.denyInsecureTLS = true → c.tls.insecureSkipVerify = false) := by
  unfold filtered at h
  split_ifs at h with hprotocol hinsecure
  constructor
  · intro hne
    simpa [hne] using hprotocol
  · intro hdeny
    simpa [hdeny] using hinsecure

end

section

variable {unicode : Unicode} {sum256 : Bytes → Digest} {readers : Readers} {source : Bytes}
  {limits : Limits} {allowHTTPProxyURI : Bool} {admission : Admission} {inputs : List Input}

/-- The inputs of a payload, as far as they are read already, come from the constructors. -/
theorem readInput_built (hreaders : readers.Sound unicode) {format found : Format}
    (h : decodeInputs unicode readers format limits data = .ok (found, inputs))
    (hinput : input ∈ inputs) {read : ParseInput}
    (hread : readInput readers limits allowHTTPProxyURI input = .ok read) :
    read.configuration.Built unicode := by
  cases input with
  | uri line =>
    simp only [readInput] at hread
    split_ifs at hread
    · cases hread
    · exact hreaders.uri line _ read hread
  | decoded result =>
    obtain rfl : result = .ok read := hread
    -- lists of lines have no input that is read already
    have hlines : ∀ lines : List Bytes, Input.decoded (.ok read) ∉ lines.map fun line =>
        Input.uri (if line.getLast? = some 13 then line.dropLast else line) := by
      intro lines hmem
      obtain ⟨line, -, hline⟩ := List.mem_map.mp hmem
      cases hline
    unfold decodeInputs at h
    dsimp only at h
    split at h
    · cases h
    · cases h
    · obtain ⟨-, rfl⟩ := Prod.mk.inj (Except.ok.inj h)
      exact absurd hinput (hlines _)
    · split at h
      · cases h
      · obtain ⟨-, rfl⟩ := Prod.mk.inj (Except.ok.inj h)
        exact absurd hinput (hlines _)
    · split at h
      · cases h
      next decoded hdecoded =>
        obtain ⟨-, rfl⟩ := Prod.mk.inj (Except.ok.inj h)
        exact hreaders.json data limits decoded hdecoded read hinput

/-- What is read comes from the constructors. -/
def ReadBuilt (unicode : Unicode) (readers : Readers) (limits : Limits) (allowHTTPProxyURI : Bool)
    (inputs : List Input) : Prop :=
  ∀ input ∈ inputs, ∀ read, readInput readers limits allowHTTPProxyURI input = .ok read →
    read.configuration.Built unicode

theorem judged_of_built (hbuilt : ReadBuilt unicode readers limits allowHTTPProxyURI inputs) :
    Judged (verdict unicode sum256 readers source limits allowHTTPProxyURI admission) inputs := by
  intro input hinput _
  unfold verdict
  cases hread : readInput readers limits allowHTTPProxyURI input with
  | error diagnostic => exact ⟨_, rfl⟩
  | ok read => exact newSourceRecord_of_built (hbuilt input hinput read hread)

/-- The records of the verdicts are the accepted ones. -/
theorem mem_records_iff {record : Record} :
    record ∈ (verdicts (verdict unicode sum256 readers source limits allowHTTPProxyURI admission)
        inputs).filterMap Except.toOption ↔
      ∃ input ∈ inputs, input.blank = false ∧ ∃ read,
        readInput readers limits allowHTTPProxyURI input = .ok read ∧
        newSourceRecord unicode sum256 source admission read = .ok (.ok record) := by
  simp only [verdicts, List.mem_filterMap, List.mem_filter, toOption_eq_some_iff, Bool.not_eq_true']
  constructor
  · rintro ⟨v, ⟨input, ⟨hinput, hblank⟩, hv⟩, rfl⟩
    refine ⟨input, hinput, hblank, ?_⟩
    unfold verdict at hv
    cases hread : readInput readers limits allowHTTPProxyURI input with
    | error diagnostic =>
      rw [hread] at hv
      cases hv
    | ok read =>
      rw [hread] at hv
      exact ⟨read, rfl, hv⟩
  · rintro ⟨input, hinput, hblank, read, hread, hnew⟩
    refine ⟨.ok record, ⟨input, ⟨hinput, hblank⟩, ?_⟩, rfl⟩
    rw [verdict, hread]
    exact hnew

end

/-! ## Snapshots -/

/-- What a snapshot and its report say about the inputs. -/
structure Admitted (unicode : Unicode) (sum256 : Bytes → Digest) (readers : Readers)
    (source : Bytes) (limits : Limits) (allowHTTPProxyURI : Bool) (admission : Admission)
    (inputs : List Input) (result : ParseResult) : Prop where
  counted : result.report.accepted + result.report.rejected =
    (inputs.filter fun input => !input.blank).length
  bounded : (result.report.accepted + result.report.rejected : Nat) ≤ limits.maxRecords
  increasing : result.snapshot.records.Pairwise fun left right =>
    left.identity sum256 < right.identity sum256
  identities : ∀ identity, (∃ r ∈ result.snapshot.records, r.identity sum256 = identity) ↔
    ∃ input ∈ inputs, ∃ configuration,
      Accepts unicode sum256 readers source limits allowHTTPProxyURI admission input
        configuration ∧ configuration.identity sum256 = identity
  allowed : ∀ r ∈ result.snapshot.records, admission.allowedProtocol ≠ [] →
    r.configuration.protocol ∈ admission.allowedProtocol
  verified : ∀ r ∈ result.snapshot.records, admission.denyInsecureTLS = true →
    r.configuration.tls.insecureSkipVerify = false
  complete : admission.allowPartial = false → result.report.rejected = 0

/-- The two results have one failure, one snapshot and, unless there were too many records, the
same counts. -/
structure SameResult (result result' : ParseResult) : Prop where
  failure : result'.failure = result.failure
  snapshot : result'.snapshot = result.snapshot
  counts : result.failure ≠ some .tooManyRecords →
    ∀ kind, result'.report.count kind = result.report.count kind

theorem SameResult.refl (result : ParseResult) : SameResult result result :=
  ⟨rfl, rfl, fun _ _ => rfl⟩

section

variable {unicode : Unicode} {sum256 : Bytes → Digest} {source : Bytes} {admission : Admission}

theorem snapshot_parseEnd {loop : ParseState × Option ParseFailure}
    (h : (parseEnd unicode sum256 source admission loop).failure ≠ none) :
    (parseEnd unicode sum256 source admission loop).snapshot = ⟨[], []⟩ := by
  obtain ⟨state, failure⟩ := loop
  cases failure with
  | some failure => rfl
  | none =>
    rw [parseEnd] at h ⊢
    split_ifs at h ⊢
    · rfl
    · rfl
    cases hinventory : deduplicate unicode sum256 state.records with
    | error e => rfl
    | ok inventory =>
      rw [hinventory] at h
      exact absurd rfl h

/-- Loops with the same counts and the same records, in any order, have the same result. -/
theorem sameResult_parseEnd {state' : ParseState} (hsound : ∀ r ∈ state.records, r.Sound unicode)
    (hperm : state'.records.Perm state.records)
    (hcounts : ∀ kind, state'.report.count kind = state.report.count kind) :
    SameResult (parseEnd unicode sum256 source admission (state, none))
      (parseEnd unicode sum256 source admission (state', none)) := by
  have haccepted : state'.report.accepted = state.report.accepted := hcounts none
  have hrejected : state'.report.rejected = state.report.rejected := by
    unfold Report.rejected
    exact congrArg₂ (· + ·) (congrArg₂ (· + ·) (congrArg₂ (· + ·) (hcounts (some .malformed))
      (hcounts (some .unsupported))) (hcounts (some .invalid))) (hcounts (some .filtered))
  unfold parseEnd
  dsimp only
  rw [haccepted, hrejected]
  split_ifs
  · exact ⟨rfl, rfl, fun _ => hcounts⟩
  · exact ⟨rfl, rfl, fun _ => hcounts⟩
  cases hinventory : deduplicate unicode sum256 state.records with
  | ok inventory =>
    rw [deduplicate_perm hsound hperm hinventory]
    exact ⟨rfl, rfl, fun _ => hcounts⟩
  | error e =>
    cases hinventory' : deduplicate unicode sum256 state'.records with
    | error e' => exact ⟨rfl, rfl, fun _ => hcounts⟩
    | ok inventory =>
      have hok := deduplicate_perm (fun r hr => hsound r (hperm.mem_iff.mp hr)) hperm.symm
        hinventory'
      rw [hinventory] at hok
      cases hok

end

section

variable {unicode : Unicode} {sum256 : Bytes → Digest} {readers : Readers} {source : Bytes}
  {limits : Limits} {allowHTTPProxyURI : Bool} {admission : Admission} {inputs : List Input}

section

variable (hsource : IsSourceID source)
  (hbuilt : ReadBuilt unicode readers limits allowHTTPProxyURI inputs)
include hsource hbuilt

/-- Records of the verdicts, for inputs that come from the constructors. -/
theorem sound_records :
    ∀ record ∈ (verdicts (verdict unicode sum256 readers source limits allowHTTPProxyURI admission)
      inputs).filterMap Except.toOption, record.Sound unicode := by
  intro record hrecord
  obtain ⟨input, hinput, -, read, hread, hnew⟩ := mem_records_iff.mp hrecord
  exact (newSourceRecord_accepted hsource (hbuilt input hinput read hread) hnew).1.sound

/-- **A result without a failure accounts for all inputs.** -/
theorem admitted_parseEnd (hpositive : 0 < limits.maxRecords)
    (h : (parseEnd unicode sum256 source admission (parseLoop (parseStep unicode sum256 readers
      source limits allowHTTPProxyURI admission) {} inputs)).failure = none) :
    Admitted unicode sum256 readers source limits allowHTTPProxyURI admission inputs
      (parseEnd unicode sum256 source admission (parseLoop
        (parseStep unicode sum256 readers source limits allowHTTPProxyURI admission) {}
        inputs)) := by
  have hjudged : Judged (verdict unicode sum256 readers source limits allowHTTPProxyURI admission)
    inputs := judged_of_built hbuilt
  have hspec := parseLoop_spec adds_parseStep hjudged {}
  set vs := verdicts (verdict unicode sum256 readers source limits allowHTTPProxyURI admission)
    inputs
  split_ifs at hspec with hfits
  · rw [hspec] at h ⊢
    obtain ⟨-, hwhole, inventory, hinventory, hresult⟩ := parseEnd_eq h
    rw [hresult]
    have hsound : ∀ record ∈ vs.filterMap Except.toOption, record.Sound unicode :=
      sound_records hsource hbuilt
    rw [records_foldl_add, List.nil_append] at hinventory
    have hdistinguished := distinguished_of_deduplicate hsound hinventory
    obtain ⟨inventory', hinventory', hunified⟩ := deduplicate_unified hdistinguished hsound
    obtain rfl : inventory = inventory' := Except.ok.inj (hinventory.symm.trans hinventory')
    -- a record of the inventory has the configuration of an accepted input
    have hpassed : ∀ r ∈ inventory, filtered r.configuration admission = none := by
      intro r hr
      obtain ⟨r', hr', hconfiguration⟩ := hunified.configurations r hr
      obtain ⟨input, hinput, -, read, hread, hnew⟩ := mem_records_iff.mp hr'
      obtain ⟨-, hread', hfiltered⟩ :=
        newSourceRecord_accepted hsource (hbuilt input hinput read hread) hnew
      rw [← hconfiguration, hread', hfiltered]
    have htotal := total_foldl_add {} vs
    have hzero : ({} : ParseState).report.accepted + ({} : ParseState).report.rejected = 0 := rfl
    rw [hzero, Nat.zero_add] at htotal
    refine ⟨htotal.trans (length_verdicts hjudged), ?_, hunified.increasing, ?_,
      fun r hr => (filtered_eq_none (hpassed r hr)).1,
      fun r hr => (filtered_eq_none (hpassed r hr)).2, hwhole⟩
    · rw [htotal]
      rcases hfits with hfits | hnil
      · simpa using hfits
      · rw [hnil]
        exact hpositive.le
    · intro identity
      rw [hunified.identities identity]
      constructor
      · rintro ⟨r, hr, rfl⟩
        obtain ⟨input, hinput, hblank, read, hread, hnew⟩ := mem_records_iff.mp hr
        obtain ⟨-, hread', -⟩ :=
          newSourceRecord_accepted hsource (hbuilt input hinput read hread) hnew
        exact ⟨input, hinput, read.configuration, ⟨hblank, read, r, hread, hnew, rfl⟩,
          by rw [Record.identity, hread']⟩
      · rintro ⟨input, hinput, c, ⟨hblank, read, r, hread, hnew, rfl⟩, rfl⟩
        obtain ⟨-, hread', -⟩ :=
          newSourceRecord_accepted hsource (hbuilt input hinput read hread) hnew
        exact ⟨r, mem_records_iff.mpr ⟨input, hinput, hblank, read, hread, hnew⟩,
          by rw [Record.identity, hread']⟩
  · obtain ⟨stopped, hstopped⟩ := hspec
    rw [hstopped] at h
    cases h

/-- **The order of the inputs does not matter.** -/
theorem sameResult_of_perm {inputs' : List Input} (hperm : inputs'.Perm inputs) :
    SameResult
      (parseEnd unicode sum256 source admission (parseLoop
        (parseStep unicode sum256 readers source limits allowHTTPProxyURI admission) {} inputs))
      (parseEnd unicode sum256 source admission (parseLoop
        (parseStep unicode sum256 readers source limits allowHTTPProxyURI admission) {}
        inputs')) := by
  have hjudged : Judged (verdict unicode sum256 readers source limits allowHTTPProxyURI admission)
    inputs := judged_of_built hbuilt
  have hjudged' : Judged (verdict unicode sum256 readers source limits allowHTTPProxyURI admission)
    inputs' := judged_of_built fun input hinput => hbuilt input (hperm.mem_iff.mp hinput)
  have hspec := parseLoop_spec adds_parseStep hjudged {}
  have hspec' := parseLoop_spec adds_parseStep hjudged' {}
  set judge := verdict unicode sum256 readers source limits allowHTTPProxyURI admission
  have hverdicts : (verdicts judge inputs').Perm (verdicts judge inputs) :=
    (hperm.filter _).filterMap _
  have hsame : verdicts judge inputs' = [] ↔ verdicts judge inputs = [] := by
    rw [← List.length_eq_zero_iff, hverdicts.length_eq, List.length_eq_zero_iff]
  simp only [hverdicts.length_eq, hsame] at hspec'
  split_ifs at hspec hspec' with hfits
  · rw [hspec, hspec']
    apply sameResult_parseEnd
    · rw [records_foldl_add, List.nil_append]
      exact sound_records hsource hbuilt
    · rw [records_foldl_add, records_foldl_add]
      exact (hverdicts.filterMap _).append_left _
    · intro kind
      rw [count_foldl_add, count_foldl_add, hverdicts.countP_eq]
  · obtain ⟨stopped, hstopped⟩ := hspec
    obtain ⟨stopped', hstopped'⟩ := hspec'
    rw [hstopped, hstopped']
    exact ⟨rfl, rfl, fun h => absurd rfl h⟩

end

end

/-! ## Payloads -/

theorem Limits.maxRecords_pos {limits normalized : Limits}
    (h : limits.normalized = some normalized) : 0 < normalized.maxRecords := by
  unfold Limits.normalized at h
  split_ifs at h with hzero hlow hhigh
  · rw [← Option.some.inj h]
    decide
  · rw [← Option.some.inj h]
    simp only [Bool.or_eq_true, decide_eq_true_eq, not_or, not_le] at hlow
    exact hlow.1.2

/-- The data is read as a list of links: by the options, or because it is detected. -/
def IsURIList (unicode : Unicode) (options : ParseOptions) (data : Bytes) : Prop :=
  options.format = .uriList ∨ options.format = .auto ∧
    ∀ limits, options.limits.normalized = some limits →
      detectFormat unicode data limits = some .uriList

/-- The input that a line of a list is. -/
def lineInput (line : Bytes) : Input :=
  .uri (if line.getLast? = some 13 then line.dropLast else line)

theorem decodeInputs_of_isURIList {unicode : Unicode} {readers : Readers} {options : ParseOptions}
    {limits : Limits} (h : IsURIList unicode options data)
    (hlimits : options.limits.normalized = some limits) :
    decodeInputs unicode readers options.format limits data =
      .ok (.uriList, (splitLines data).map lineInput) := by
  unfold decodeInputs
  rcases h with hformat | ⟨hformat, hdetect⟩
  · rw [hformat]
    rfl
  · rw [hformat, if_pos rfl, hdetect limits hlimits]
    rfl

theorem length_of_lines_perm {data' : Bytes} (h : (splitLines data').Perm (splitLines data)) :
    data'.length = data.length := by
  have hsum := (h.map fun line => line.length + 1).sum_eq
  rw [splitLines, splitLines, sum_length_splitOn, sum_length_splitOn] at hsum
  omega

section

variable {unicode : Unicode} {sum256 : Bytes → Digest} {readers : Readers} {payload : Payload}
  {options : ParseOptions}

/-- Without a failure the result accounts for the inputs of the payload. -/
theorem admitted_of_parseResult (hreaders : readers.Sound unicode)
    (hsource : IsSourceID payload.source)
    (h : (parseResult unicode sum256 readers payload options).failure = none) :
    ∃ limits format inputs, options.limits.normalized = some limits ∧
      decodeInputs unicode readers options.format limits payload.data = .ok (format, inputs) ∧
      Admitted unicode sum256 readers payload.source limits
        (decide (format ≠ .json) && decide (options.format ≠ .auto)) options.admission inputs
        (parseResult unicode sum256 readers payload options) := by
  rcases parseResult_cases payload options with
    ⟨failure, heq⟩ | ⟨limits, format, inputs, hlimits, hdecode, heq⟩
  · rw [heq] at h
    cases h
  · rw [heq] at h ⊢
    exact ⟨limits, format, inputs, hlimits, hdecode, admitted_parseEnd hsource
      (fun _ hinput _ hread => readInput_built hreaders hdecode hinput hread)
      (Limits.maxRecords_pos hlimits) h⟩

/-- After a failure there is no snapshot. -/
theorem snapshot_of_failure
    (h : (parseResult unicode sum256 readers payload options).failure ≠ none) :
    (parseResult unicode sum256 readers payload options).snapshot = ⟨[], []⟩ := by
  rcases parseResult_cases payload options with ⟨failure, heq⟩ | ⟨limits, format, inputs, -, -, heq⟩
  · rw [heq]
  · rw [heq] at h ⊢
    exact snapshot_parseEnd h

/-- Lists of the same lines have the same result. -/
theorem sameResult_of_lines (hreaders : readers.Sound unicode) (hsource : IsSourceID payload.source)
    (hlist : IsURIList unicode options payload.data) (hlist' : IsURIList unicode options data)
    (hperm : (splitLines data).Perm (splitLines payload.data)) :
    SameResult (parseResult unicode sum256 readers payload options)
      (parseResult unicode sum256 readers ⟨payload.source, data⟩ options) := by
  unfold parseResult
  cases hlimits : options.limits.normalized with
  | none => exact SameResult.refl _
  | some limits =>
    have hdecode : decodeInputs unicode readers options.format limits payload.data = _ :=
      decodeInputs_of_isURIList hlist hlimits
    dsimp only
    rw [length_of_lines_perm hperm, hdecode, decodeInputs_of_isURIList hlist' hlimits]
    split_ifs
    · exact SameResult.refl _
    · exact sameResult_of_perm hsource
        (fun _ hinput _ hread => readInput_built hreaders hdecode hinput hread)
        (hperm.map lineInput)

end

/-- **Admission is all or nothing, and does not depend on the order of lines.**  Without a
failure every input that is not blank is counted and the snapshot is that of the accepted
ones; after a failure there is no snapshot; and a list of links with its lines in another order
has the same failure, the same snapshot, and the same counts unless it has too many records. -/
theorem parse_accounts_for_inputs (unicode : Unicode) (sum256 : Bytes → Digest)
    {readers : Readers} (hreaders : readers.Sound unicode) {payload : Payload}
    (hsource : IsSourceID payload.source) (options : ParseOptions) :
    ((parseResult unicode sum256 readers payload options).failure = none →
      ∃ limits format inputs, options.limits.normalized = some limits ∧
        decodeInputs unicode readers options.format limits payload.data = .ok (format, inputs) ∧
        Admitted unicode sum256 readers payload.source limits
          (decide (format ≠ .json) && decide (options.format ≠ .auto)) options.admission inputs
          (parseResult unicode sum256 readers payload options)) ∧
    ((parseResult unicode sum256 readers payload options).failure ≠ none →
      (parseResult unicode sum256 readers payload options).snapshot = ⟨[], []⟩) ∧
    ∀ data, IsURIList unicode options payload.data → IsURIList unicode options data →
      (splitLines data).Perm (splitLines payload.data) →
      SameResult (parseResult unicode sum256 readers payload options)
        (parseResult unicode sum256 readers ⟨payload.source, data⟩ options) :=
  ⟨admitted_of_parseResult hreaders hsource, snapshot_of_failure,
    fun _ hlist hlist' hperm => sameResult_of_lines hreaders hsource hlist hlist' hperm⟩

namespace Sample

/-- Readers that accept two links of one endpoint. -/
def listReaders : Readers where
  parseURI line _ :=
    if line = ascii "old" || line = ascii "new" then
      .ok ⟨Endpoint.Sample.hysteria line, line⟩
    else if line = ascii "tuic" then Source.unsupported "unsupported_protocol"
    else Source.malformed "malformed_uri"
  decodeJSONInputs _ _ := none

theorem listReaders_sound : listReaders.Sound Endpoint.Sample.unicode where
  uri := by
    intro line allowHTTPProxyURI read h
    unfold listReaders at h
    dsimp only at h
    split_ifs at h with hline
    · obtain rfl := Except.ok.inj h
      rcases (by simpa using hline : line = ascii "old" ∨ line = ascii "new") with rfl | rfl
      · exact Endpoint.Sample.hysteria_old_built
      · exact Endpoint.Sample.hysteria_new_built
    · cases h
    · cases h
  json := by
    intro data limits inputs h
    cases h

def listOptions (maxRecords : Int) : ParseOptions :=
  ⟨.uriList, ⟨1024, 1024, maxRecords, 64⟩, ⟨true, [], false⟩⟩

def listPayload (text : String) : Payload := ⟨ascii "source", ascii text⟩

/-- The result for a list of links. -/
def listResult (text : String) (maxRecords : Int) : ParseResult :=
  parseResult Endpoint.Sample.unicode Endpoint.Sample.sum256 listReaders (listPayload text)
    (listOptions maxRecords)

/-- Two lists of two links with a comment. -/
theorem parse_accounts_for_inputs_list :
    (listResult "old\n# comment\nnew" 2).failure = none ∧
      SameResult (listResult "old\n# comment\nnew" 2) (listResult "new\nold\n# comment" 2) := by
  refine ⟨by decide +kernel, ?_⟩
  exact (parse_accounts_for_inputs Endpoint.Sample.unicode Endpoint.Sample.sum256
    listReaders_sound (.inr (by decide +kernel)) (listOptions 2)).2.2 _ (.inl rfl) (.inl rfl)
    (by decide +kernel)

/-- The report of a list with too many records is about its first record. -/
theorem report_of_first_record :
    (listResult "tuic\nother" 1).failure = some .tooManyRecords ∧
      (listResult "tuic\nother" 1).report.unsupported = 1 ∧
      (listResult "other\ntuic" 1).failure = some .tooManyRecords ∧
      (listResult "other\ntuic" 1).report.unsupported = 0 := by
  decide +kernel

end Sample

end Egressfox.Source
