import Egressfox.Lib.Sort
import Egressfox.Endpoint.Injective

/-!
# Records and the deduplicated inventory

`internal/endpoint/provenance.go` and `internal/endpoint/inventory.go`.

A record is a configuration together with the source relationships that contribute it.
`deduplicate` sorts records by identity and merges neighbours of equal identity; a pair
of equal identity whose configurations are not equivalent is a conflict.  The identity
of a configuration is the hash of its canonical encoding, so a conflict would be a
collision of the hash: `deduplicate` succeeds on constructed records whenever the hash
has no collision among their encodings.

The two maps of the source, of alias sets and of provenance by key, are sorted before
use, so the order in which Go enumerates them does not matter; they are lists here.
-/

namespace Egressfox.Endpoint

open Lib

/-! ## Provenance -/

def maxProvenanceIDBytes : Nat := 128

def maxAliasBytes : Nat := 256

/-- A byte admitted in source and record identifiers. -/
def isProvenanceByte (character : Byte) : Bool :=
  97 ≤ character.val && character.val ≤ 122 || 65 ≤ character.val && character.val ≤ 90 ||
    48 ≤ character.val && character.val ≤ 57 || character = 46 || character = 95 || character = 45

/-- `validateProvenanceID`, the common body of `NewSourceID` and `NewRecordID`. -/
def validateProvenanceID (field : String) (value : Bytes) : Except Error Bytes :=
  if value.length = 0 || maxProvenanceIDBytes < value.length then
    invalid field "must contain between 1 and 128 characters"
  else if !value.all isProvenanceByte then
    invalid field "must use only ASCII letters, digits, dots, underscores, and hyphens"
  else .ok value

/-- `NewSourceID`. -/
def newSourceID : Bytes → Except Error Bytes := validateProvenanceID "provenance.source_id"

/-- `NewRecordID`. -/
def newRecordID : Bytes → Except Error Bytes := validateProvenanceID "provenance.record_id"

/-- A source-local record and its display aliases. -/
structure Provenance where
  source : Bytes := []
  record : Bytes := []
  aliases : List Bytes := []
deriving DecidableEq, Repr

/-- `Provenance.valid`. -/
def Provenance.valid (p : Provenance) : Bool := p.source ≠ [] && p.record ≠ []

/-- `Provenance.key`. -/
def Provenance.key (p : Provenance) : Bytes := p.source ++ [0] ++ p.record

/-- A control or format character: `unicode.IsControl` or category `Cf`. -/
def isControlOrFormat (unicode : Unicode) (character : Nat) : Bool :=
  character < 0x20 || 0x7f ≤ character && character < 0xa0 || unicode.isFormat character

/-- The checks of `normalizeAliases` on one alias. -/
def checkAlias (unicode : Unicode) (value : Bytes) : Option String :=
  if value = [] then some "must not be empty"
  else if maxAliasBytes < value.length then some "must not exceed 256 bytes"
  else if !validUTF8 value then some "must be valid UTF-8"
  else if anyRune (isControlOrFormat unicode) value then
    some "must not contain control characters"
  else none

/-- `normalizeAliases`. -/
def normalizeAliases (unicode : Unicode) (aliases : List Bytes) : Except Error (List Bytes) :=
  match aliases.findSome? (checkAlias unicode) with
  | some problem => invalid "provenance.alias" problem
  | none => .ok (sortSlice (fun a b => a < b) aliases.dedup)

/-- `NewProvenance`. -/
def newProvenance (unicode : Unicode) (source record : Bytes) (aliases : List Bytes) :
    Except Error Provenance :=
  if source = [] then invalid "provenance.source_id" "must be constructed with NewSourceID"
  else if record = [] then invalid "provenance.record_id" "must be constructed with NewRecordID"
  else do
    let normalized ← normalizeAliases unicode aliases
    return ⟨source, record, normalized⟩

/-- One step of the loop of `mergeProvenance`: aliases of a known key are united, and lost
should they not pass their own check. -/
def mergeProvenanceStep (unicode : Unicode) (merged : List Provenance) (p : Provenance) :
    List Provenance :=
  if merged.any fun q => q.key = p.key then
    merged.map fun q =>
      if q.key = p.key then
        { q with
          aliases := match normalizeAliases unicode (q.aliases ++ p.aliases) with
            | .ok aliases => aliases
            | .error _ => [] }
      else q
  else merged ++ [p]

/-- The order of provenance: by source, then by record. -/
def provenanceLess (left right : Provenance) : Bool :=
  if left.source ≠ right.source then left.source < right.source else left.record < right.record

/-- `mergeProvenance`. -/
def mergeProvenance (unicode : Unicode) (groups : List (List Provenance)) : List Provenance :=
  sortSlice provenanceLess (groups.flatten.foldl (mergeProvenanceStep unicode) [])

/-! ## Records -/

/-- A configuration and the source relationships that contribute it. -/
structure Record where
  configuration : Configuration := {}
  provenance : List Provenance := []
deriving DecidableEq, Repr

/-- `NewRecord`. -/
def newRecord (unicode : Unicode) (configuration : Configuration) (provenance : List Provenance) :
    Except Error Record :=
  if !configuration.valid then
    invalid "record.configuration" "must be constructed with NewConfiguration"
  else if provenance.length = 0 then
    invalid "record.provenance" "must contain at least one source relationship"
  else if !provenance.all Provenance.valid then
    invalid "record.provenance" "contains an invalid source relationship"
  else .ok ⟨configuration, mergeProvenance unicode [provenance]⟩

namespace Record

/-- `Record.Identity`. -/
def identity (sum256 : Bytes → Digest) (record : Record) : Identity :=
  record.configuration.identity sum256

/-- `Record.valid`. -/
def valid (record : Record) : Bool :=
  record.configuration.valid && record.provenance.length ≠ 0 &&
    record.provenance.all Provenance.valid

end Record

/-- `mergeMatchingRecords`. -/
def mergeMatchingRecords (unicode : Unicode) (sum256 : Bytes → Digest) (left right : Record) :
    Except Error Record :=
  if !left.configuration.equivalent right.configuration then
    .error (.conflict (left.identity sum256).id)
  else .ok { left with provenance := mergeProvenance unicode [left.provenance, right.provenance] }

/-- The comparison of `sortRecords`.  The records compared are valid and have a revision. -/
def recordLess (sum256 : Bytes → Digest) (left right : Record) : Bool :=
  let leftIdentity := left.identity sum256
  let rightIdentity := right.identity sum256
  let bytes (revision : Option Digest) : Bytes := (revision.map Subtype.val).getD []
  if leftIdentity.id.value ≠ rightIdentity.id.value then
    leftIdentity.id.value < rightIdentity.id.value
  else bytesCompare (bytes leftIdentity.revision) (bytes rightIdentity.revision) = .lt

/-- One step of the loop of `Deduplicate`. -/
def deduplicateStep (unicode : Unicode) (sum256 : Bytes → Digest) (result : List Record)
    (record : Record) : Except Error (List Record) :=
  match result.getLast? with
  | none => .ok [record]
  | some last =>
    if !(last.identity sum256).equal (record.identity sum256) then .ok (result ++ [record])
    else do
      let merged ← mergeMatchingRecords unicode sum256 last record
      return result.dropLast ++ [merged]

/-- `Deduplicate`. -/
def deduplicate (unicode : Unicode) (sum256 : Bytes → Digest) (records : List Record) :
    Except Error (List Record) :=
  if !records.all Record.valid then
    invalid "inventory.record" "must be constructed with NewRecord"
  else (sortSlice (recordLess sum256) records).foldlM (deduplicateStep unicode sum256) []

/-! ## Equivalence and identity -/

/-- Equal Hysteria2 options are the same: a present obfuscation password is not empty. -/
theorem Hysteria2Options.Shaped.equal_iff {h h' : Hysteria2Options} (hs : h.Shaped)
    (hs' : h'.Shaped) : h.equal h' = true ↔ h = h' := by
  have hobfs : h.revealSalamanderPassword = h'.revealSalamanderPassword ↔
      h.obfsPassword = h'.obfsPassword := by
    unfold revealSalamanderPassword
    cases ho : h.obfsPassword with
    | none =>
      cases ho' : h'.obfsPassword with
      | none => simp
      | some p' => simpa using ((hs'.obfsPassword p' ho').1).symm
    | some p =>
      cases ho' : h'.obfsPassword with
      | none => simpa using (hs.obfsPassword p ho).1
      | some p' => simp
  obtain ⟨up, down, obfs, ports⟩ := h
  obtain ⟨up', down', obfs', ports'⟩ := h'
  simp only [Hysteria2Options.equal, Bool.and_eq_true, decide_eq_true_eq, hobfs,
    Hysteria2Options.mk.injEq, and_assoc]

theorem AdvancedConnection.equal_iff {a a' : AdvancedConnection}
    (hs : ∀ h ∈ a.hysteria, h.Shaped) (hs' : ∀ h ∈ a'.hysteria, h.Shaped) :
    a.equal a' = true ↔ a = a' := by
  obtain ⟨flow, ⟨alpn, fingerprint, reality⟩, hysteria⟩ := a
  obtain ⟨flow', ⟨alpn', fingerprint', reality'⟩, hysteria'⟩ := a'
  have hhysteria : hysteriaEqual hysteria hysteria' = true ↔ hysteria = hysteria' := by
    cases hysteria with
    | none => cases hysteria' <;> simp [hysteriaEqual]
    | some h =>
      cases hysteria' with
      | none => simp [hysteriaEqual]
      | some h' =>
        simpa [hysteriaEqual] using Hysteria2Options.Shaped.equal_iff (hs h rfl) (hs' h' rfl)
  simp only [AdvancedConnection.equal, SecurityOptions.equal, Bool.and_eq_true, decide_eq_true_eq,
    hhysteria, AdvancedConnection.mk.injEq, SecurityOptions.mk.injEq]
  tauto

/-- Equal valid transports are the same. -/
theorem Transport.equal_iff {t t' : Transport} (ht : t.valid = true) (ht' : t'.valid = true)
    (hs : t.Shaped) (hs' : t'.Shaped) : t.equal t' = true ↔ t = t' := by
  constructor
  · intro h
    simp only [Transport.equal, Bool.and_eq_true, decide_eq_true_eq] at h
    obtain ⟨⟨⟨hkind, hpath⟩, hhost⟩, hadvanced⟩ := h
    apply Transport.eq_of_fields ht ht' hs hs' hkind hpath hhost
    all_goals simp only [Transport.path, Transport.host, Transport.identityService,
      Transport.mode, Transport.service, hadvanced, hkind]
  · rintro rfl
    simp [Transport.equal]

section

variable {c c' : Configuration} {sum256 : Bytes → Digest} {unicode : Unicode} {record : Record}

namespace Configuration

/-- **Equivalence of constructed configurations is equality.** -/
theorem Shaped.equivalent_iff (hc : c.Shaped) (hc' : c'.Shaped) :
    c.equivalent c' = true ↔ c = c' := by
  have hchecked := checked_of_valid hc.valid
  have hchecked' := checked_of_valid hc'.valid
  have hadvanced : advancedEqual c.advanced c'.advanced = true ↔ c.advanced = c'.advanced := by
    cases ha : c.advanced with
    | none => cases ha' : c'.advanced <;> simp [advancedEqual]
    | some a =>
      cases ha' : c'.advanced with
      | none => simp [advancedEqual]
      | some a' =>
        rw [Option.some.injEq]
        exact AdvancedConnection.equal_iff (hc.hysteria a ha) (hc'.hysteria a' ha')
  have hcredential := Credential.equal_iff hchecked.credential hchecked'.credential
  have htransport := Transport.equal_iff hchecked.transport hchecked'.transport hc.transport
    hc'.transport
  obtain ⟨protocol, address, credential, transport, tls, method, advanced⟩ := c
  obtain ⟨protocol', address', credential', transport', tls', method', advanced'⟩ := c'
  simp only [equivalent, Bool.and_eq_true, decide_eq_true_eq, hcredential, htransport, hadvanced,
    Configuration.mk.injEq, and_assoc]

/-- A valid configuration is equivalent to itself. -/
theorem equivalent_self (h : c.valid = true) : c.equivalent c = true := by
  have hcredential := (Credential.equal_iff (checked_of_valid h).credential
    (checked_of_valid h).credential).mpr rfl
  have hadvanced : advancedEqual c.advanced c.advanced = true := by
    cases c.advanced with
    | none => rfl
    | some a =>
      cases ha : a.hysteria with
      | none => simp [advancedEqual, AdvancedConnection.equal, SecurityOptions.equal, ha,
          hysteriaEqual]
      | some options => simp [advancedEqual, AdvancedConnection.equal, SecurityOptions.equal, ha,
          hysteriaEqual, Hysteria2Options.equal]
  simp [equivalent, hcredential, Transport.equal, hadvanced]

/-- **The encoding with credentials is exact**: equal bytes are equivalent configurations. -/
theorem Shaped.canonical_eq_iff (hc : c.Shaped) (hc' : c'.Shaped) :
    c.canonicalConfiguration true = c'.canonicalConfiguration true ↔ c.equivalent c' = true := by
  rw [hc.equivalent_iff hc']
  constructor
  · intro h
    have hview := view_eq_of_canonical_eq hc hc' h
    rwa [view_true, view_true] at hview
  · rintro rfl
    rfl

/-- The encodings with credentials of a set of configurations. -/
def encodings (configurations : Set Configuration) : Set Bytes :=
  { bytes | ∃ c ∈ configurations, c.canonicalConfiguration true = some bytes }

/-- The hash has no collision among the encodings of the given configurations.  No hash to
32 bytes is without collisions on all byte strings. -/
def CollisionFree (sum256 : Bytes → Digest) (configurations : Set Configuration) : Prop :=
  Set.InjOn sum256 (encodings configurations)

/-- Configurations of equal identity are equal, up to a collision of the hash. -/
theorem eq_of_identity_eq {configurations : Set Configuration}
    (hfree : CollisionFree sum256 configurations) (hc : c.Shaped) (hc' : c'.Shaped)
    (hmem : c ∈ configurations) (hmem' : c' ∈ configurations)
    (h : c.identity sum256 = c'.identity sum256) : c = c' := by
  have hrevision := congrArg Identity.revision h
  rw [identity, dif_pos hc.valid, identity, dif_pos hc'.valid] at hrevision
  have henc : c.canonicalConfiguration true = some (c.canonical hc.valid true) :=
    (Option.some_get _).symm
  have henc' : c'.canonicalConfiguration true = some (c'.canonical hc'.valid true) :=
    (Option.some_get _).symm
  have hbytes := hfree ⟨c, hmem, henc⟩ ⟨c', hmem', henc'⟩ (Option.some.inj hrevision)
  apply (hc.equivalent_iff hc').mp
  apply (hc.canonical_eq_iff hc').mp
  rw [henc, henc', hbytes]

end Configuration

/-! ## No conflicts -/

/-- A record from `NewRecord`, or merged by `Deduplicate` from such records. -/
inductive Record.Built (unicode : Unicode) : Record → Prop where
  | new {configuration : Configuration} {provenance : List Provenance} {record : Record} :
      configuration.Built unicode → newRecord unicode configuration provenance = .ok record →
      Built unicode record
  | merged {sum256 : Bytes → Digest} {left right record : Record} :
      Built unicode left → Built unicode right →
      mergeMatchingRecords unicode sum256 left right = .ok record → Built unicode record

theorem mergeMatchingRecords_eq_ok {left right merged : Record}
    (h : mergeMatchingRecords unicode sum256 left right = .ok merged) :
    merged = ⟨left.configuration, mergeProvenance unicode [left.provenance, right.provenance]⟩ := by
  unfold mergeMatchingRecords at h
  split_ifs at h
  exact (Except.ok.inj h).symm

theorem Record.Built.configuration (h : record.Built unicode) :
    record.configuration.Built unicode := by
  induction h with
  | new hc h =>
    simp only [newRecord, ite_invalid_eq_ok] at h
    obtain ⟨-, -, -, h⟩ := h
    obtain rfl := Except.ok.inj h
    exact hc
  | merged _ _ h ih _ =>
    rw [mergeMatchingRecords_eq_ok h]
    exact ih

/-- Merging provenance keeps it valid and, once there is some, not empty. -/
theorem mergeProvenance_valid {groups : List (List Provenance)}
    (hvalid : ∀ p ∈ groups.flatten, p.valid = true) (hne : groups.flatten ≠ []) :
    (∀ p ∈ mergeProvenance unicode groups, p.valid = true) ∧
      mergeProvenance unicode groups ≠ [] := by
  -- the loop, from any list already merged
  have hloop : ∀ (l merged : List Provenance), (∀ p ∈ l, p.valid = true) →
      (∀ p ∈ merged, p.valid = true) → (l ≠ [] ∨ merged ≠ []) →
      (∀ p ∈ l.foldl (mergeProvenanceStep unicode) merged, p.valid = true) ∧
        l.foldl (mergeProvenanceStep unicode) merged ≠ [] := by
    intro l
    induction l with
    | nil =>
      rintro merged - hmerged hne
      exact ⟨hmerged, hne.resolve_left (fun h => h rfl)⟩
    | cons p l ih =>
      intro merged hl hmerged _
      have hstep : (∀ q ∈ mergeProvenanceStep unicode merged p, q.valid = true) ∧
          mergeProvenanceStep unicode merged p ≠ [] := by
        unfold mergeProvenanceStep
        split_ifs with hknown
        · constructor
          · rintro q hq
            obtain ⟨q', hq', rfl⟩ := List.mem_map.mp hq
            split_ifs
            · exact hmerged q' hq'
            · exact hmerged q' hq'
          · obtain ⟨q, hq, -⟩ := List.any_eq_true.mp hknown
            intro hnil
            rw [List.map_eq_nil_iff.mp hnil] at hq
            cases hq
        · constructor
          · rintro q hq
            rcases List.mem_append.mp hq with hq | hq
            · exact hmerged q hq
            · rw [List.mem_singleton.mp hq]
              exact hl p (by simp)
          · simp
      exact ih _ (fun q hq => hl q (by simp [hq])) hstep.1 (.inr hstep.2)
  obtain ⟨hall, hnil⟩ := hloop groups.flatten [] hvalid (by simp) (.inl hne)
  constructor
  · intro p hp
    exact hall p (mem_sortSlice.mp hp)
  · intro h
    have hlength := length_sortSlice provenanceLess
      (groups.flatten.foldl (mergeProvenanceStep unicode) [])
    rw [← mergeProvenance, h] at hlength
    exact hnil (List.length_eq_zero_iff.mp hlength.symm)

theorem Record.valid_iff : record.valid = true ↔
    record.configuration.valid = true ∧ record.provenance ≠ [] ∧
      ∀ p ∈ record.provenance, p.valid = true := by
  simp [Record.valid, and_assoc]

theorem Record.Built.valid (h : record.Built unicode) : record.valid = true := by
  induction h with
  | @new configuration provenance _ hc h =>
    simp only [newRecord, ite_invalid_eq_ok, Bool.not_eq_true', Bool.not_eq_false,
      List.length_eq_zero_iff, List.all_eq_true] at h
    obtain ⟨hvalid, hne, hall, h⟩ := h
    obtain rfl := Except.ok.inj h
    have hmerged : (∀ p ∈ mergeProvenance unicode [provenance], p.valid = true) ∧
        mergeProvenance unicode [provenance] ≠ [] :=
      mergeProvenance_valid (by simpa using hall) (by simpa using hne)
    exact Record.valid_iff.mpr ⟨hvalid, hmerged.2, hmerged.1⟩
  | @merged _ left right _ _ _ h ihl ihr =>
    rw [mergeMatchingRecords_eq_ok h]
    obtain ⟨hvalid, hne, hall⟩ := Record.valid_iff.mp ihl
    obtain ⟨-, -, hall'⟩ := Record.valid_iff.mp ihr
    have hmerged : (∀ p ∈ mergeProvenance unicode [left.provenance, right.provenance],
        p.valid = true) ∧ mergeProvenance unicode [left.provenance, right.provenance] ≠ [] := by
      apply mergeProvenance_valid
      · rintro p hp
        rcases (by simpa using hp : p ∈ left.provenance ∨ p ∈ right.provenance) with hp | hp
        · exact hall p hp
        · exact hall' p hp
      · simp [hne]
    exact Record.valid_iff.mpr ⟨hvalid, hmerged.2, hmerged.1⟩

section Deduplicate

variable (unicode : Unicode) {sum256 : Bytes → Digest} {configurations : Set Configuration}

/-- Two constructed records of equal identity can be merged. -/
theorem mergeMatchingRecords_ok (hfree : Configuration.CollisionFree sum256 configurations)
    {left right : Record} (hleft : left.configuration.Shaped) (hright : right.configuration.Shaped)
    (hmem : left.configuration ∈ configurations) (hmem' : right.configuration ∈ configurations)
    (h : (left.identity sum256).equal (right.identity sum256) = true) :
    ∃ merged, mergeMatchingRecords unicode sum256 left right = .ok merged ∧
      merged.configuration = left.configuration := by
  have hsame := Configuration.eq_of_identity_eq hfree hleft hright hmem hmem'
    (Identity.equal_iff.mp h)
  have hequivalent := (hleft.equivalent_iff hright).mpr hsame
  refine ⟨⟨left.configuration, mergeProvenance unicode [left.provenance, right.provenance]⟩, ?_,
    rfl⟩
  rw [mergeMatchingRecords, hequivalent]
  rfl

/-- A step of the loop succeeds and brings in no other configuration. -/
theorem deduplicateStep_ok (hfree : Configuration.CollisionFree sum256 configurations)
    (hshaped : ∀ c ∈ configurations, c.Shaped) {result : List Record}
    (hresult : ∀ r ∈ result, r.configuration ∈ configurations)
    (hrecord : record.configuration ∈ configurations) :
    ∃ next, deduplicateStep unicode sum256 result record = .ok next ∧
      ∀ r ∈ next, r.configuration ∈ configurations := by
  unfold deduplicateStep
  cases hlast : result.getLast? with
  | none => exact ⟨[record], rfl, by simpa using hrecord⟩
  | some last =>
    have hmem := hresult last (List.mem_of_getLast? hlast)
    by_cases hequal : (last.identity sum256).equal (record.identity sum256) = true
    · obtain ⟨merged, hmerged, hconfiguration⟩ := mergeMatchingRecords_ok unicode hfree
        (hshaped _ hmem) (hshaped _ hrecord) hmem hrecord hequal
      refine ⟨result.dropLast ++ [merged], by simp only [hequal, hmerged]; rfl, ?_⟩
      rintro r hr
      rcases List.mem_append.mp hr with hr | hr
      · exact hresult r (List.dropLast_subset _ hr)
      · rw [List.mem_singleton.mp hr, hconfiguration]
        exact hmem
    · refine ⟨result ++ [record], by simp only [hequal]; rfl, ?_⟩
      rintro r hr
      rcases List.mem_append.mp hr with hr | hr
      · exact hresult r hr
      · rw [List.mem_singleton.mp hr]
        exact hrecord

/-- The loop succeeds, whatever the order of the records. -/
theorem deduplicateLoop_ok (hfree : Configuration.CollisionFree sum256 configurations)
    (hshaped : ∀ c ∈ configurations, c.Shaped) {result records : List Record}
    (hresult : ∀ r ∈ result, r.configuration ∈ configurations)
    (hrecords : ∀ r ∈ records, r.configuration ∈ configurations) :
    ∃ next, records.foldlM (deduplicateStep unicode sum256) result = .ok next := by
  induction records generalizing result with
  | nil => exact ⟨result, rfl⟩
  | cons record records ih =>
    obtain ⟨next, hstep, hnext⟩ :=
      deduplicateStep_ok unicode hfree hshaped hresult (hrecords record (by simp))
    obtain ⟨final, hfinal⟩ := ih hnext fun r hr => hrecords r (by simp [hr])
    refine ⟨final, ?_⟩
    rw [List.foldlM_cons, hstep]
    exact hfinal

end Deduplicate

/-- **Connection identity is exact.**  For constructed configurations the encoding reads no
nil pointer, the encodings with credentials are equal exactly for equivalent ones, and so,
up to a collision of the hash, are the identities; and `Deduplicate` succeeds on records
of such configurations, so it reports no conflict. -/
theorem connection_identity_exact (unicode : Unicode) (sum256 : Bytes → Digest) :
    (∀ c c' : Configuration, c.Built unicode → c'.Built unicode →
      (∀ includeCredential, (c.canonicalConfiguration includeCredential).isSome) ∧
      (c.canonicalConfiguration true = c'.canonicalConfiguration true ↔ c.equivalent c' = true) ∧
      (Configuration.CollisionFree sum256 {c, c'} →
        (c.identity sum256).equal (c'.identity sum256) = c.equivalent c')) ∧
    ∀ records : List Record, (∀ r ∈ records, r.Built unicode) →
      Configuration.CollisionFree sum256 { c | ∃ r ∈ records, r.configuration = c } →
      ∃ inventory, deduplicate unicode sum256 records = .ok inventory := by
  constructor
  · intro c c' hc hc'
    refine ⟨Configuration.canonicalConfiguration_isSome hc.shaped.valid,
      hc.shaped.canonical_eq_iff hc'.shaped, ?_⟩
    intro hfree
    rw [Bool.eq_iff_iff, Identity.equal_iff, hc.shaped.equivalent_iff hc'.shaped]
    constructor
    · intro hidentity
      exact Configuration.eq_of_identity_eq hfree hc.shaped hc'.shaped (by simp) (by simp) hidentity
    · rintro rfl
      rfl
  · intro records hrecords hfree
    have hvalid : records.all Record.valid = true := by
      rw [List.all_eq_true]
      exact fun r hr => (hrecords r hr).valid
    have hshaped : ∀ c ∈ { c | ∃ r ∈ records, r.configuration = c }, Configuration.Shaped c := by
      rintro c ⟨r, hr, rfl⟩
      exact (hrecords r hr).configuration.shaped
    rw [deduplicate, hvalid]
    apply deduplicateLoop_ok unicode hfree hshaped
    · rintro r ⟨⟩
    · intro r hr
      exact ⟨r, mem_sortSlice.mp hr, rfl⟩

end

namespace Sample

/-- A hash that tells the two revisions of the sample endpoint apart. -/
def sum256 (bytes : Bytes) : Digest :=
  if (hysteria (ascii "old")).canonicalConfiguration true = some bytes then Digest.zero
  else ⟨List.replicate 32 1, Digest.length_ones⟩

def record (password : Bytes) : Record :=
  ⟨hysteria password, [⟨ascii "source", ascii "record", []⟩]⟩

theorem record_old_built : (record (ascii "old")).Built unicode :=
  .new hysteria_old_built
    (show newRecord unicode _ [⟨ascii "source", ascii "record", []⟩] = _ by decide +kernel)

theorem record_new_built : (record (ascii "new")).Built unicode :=
  .new hysteria_new_built
    (show newRecord unicode _ [⟨ascii "source", ascii "record", []⟩] = _ by decide +kernel)

theorem canonical_old_ne_new : (hysteria (ascii "old")).canonicalConfiguration true ≠
    (hysteria (ascii "new")).canonicalConfiguration true := by decide +kernel

theorem collisionFree_revisions : Configuration.CollisionFree sum256
    {hysteria (ascii "old"), hysteria (ascii "new")} := by
  rintro b ⟨c, hc, hb⟩ b' ⟨c', hc', hb'⟩ h
  rcases hc with rfl | rfl <;> rcases hc' with rfl | rfl
  · exact Option.some.inj (hb.symm.trans hb')
  · rw [sum256, sum256, if_pos hb, if_neg (hb' ▸ canonical_old_ne_new)] at h
    exact absurd h (by decide)
  · rw [sum256, sum256, if_pos hb', if_neg (hb ▸ canonical_old_ne_new)] at h
    exact absurd h (by decide)
  · exact Option.some.inj (hb.symm.trans hb')

/-- Two revisions of one endpoint have different identities, and the inventory keeps both. -/
theorem connection_identity_revisions :
    ((hysteria (ascii "old")).identity sum256).equal ((hysteria (ascii "new")).identity sum256) =
      false ∧
    ∃ inventory, deduplicate unicode sum256
      [record (ascii "old"), record (ascii "new"), record (ascii "old")] = .ok inventory := by
  obtain ⟨hpair, hrecords⟩ := connection_identity_exact unicode sum256
  constructor
  · rw [(hpair _ _ hysteria_old_built hysteria_new_built).2.2 collisionFree_revisions]
    decide
  · apply hrecords
    · rintro r hr
      simp only [List.mem_cons, List.not_mem_nil, or_false] at hr
      rcases hr with rfl | rfl | rfl
      · exact record_old_built
      · exact record_new_built
      · exact record_old_built
    · apply collisionFree_revisions.mono
      rintro b ⟨c, ⟨r, hr, rfl⟩, hb⟩
      simp only [List.mem_cons, List.not_mem_nil, or_false] at hr
      rcases hr with rfl | rfl | rfl
      · exact ⟨_, .inl rfl, hb⟩
      · exact ⟨_, .inr rfl, hb⟩
      · exact ⟨_, .inl rfl, hb⟩

end Sample

end Egressfox.Endpoint
