import Egressfox.Endpoint.Inventory

/-!
# The inventory is a canonical union

What `Deduplicate` returns, as a function of the *set* of its inputs.

Provenance and inventories are both lists that are strictly increasing in a key: source and
record for provenance, the identity for an inventory.  Such a list is determined by what it
holds, so an inventory is determined by the relations `Unified` states between its records
and the inputs.  The loops establish these relations step by step; that the order of the
inputs does not matter, whether the sort is stable does not matter, and that deduplicating in
two rounds is deduplicating once are then facts about the relations alone.

Aliases are united through `normalizeAliases`, whose error the source drops: the aliases of
provenance made by `NewProvenance` have passed its checks, so nothing is lost.
-/

namespace Egressfox.Endpoint

open Lib

/-! ## Aliases -/

section

variable {unicode : Unicode} {p q : Provenance} {l l' : List Provenance} {record : Record}

/-- The aliases that pass the checks are sorted without duplicates. -/
theorem normalizeAliases_of_checked {aliases : List Bytes}
    (h : ∀ value ∈ aliases, checkAlias unicode value = none) :
    normalizeAliases unicode aliases = .ok (sortSlice (fun a b => a < b) aliases.dedup) := by
  have hnone : aliases.findSome? (checkAlias unicode) = none := by
    rw [List.findSome?_eq_none_iff]
    exact h
  rw [normalizeAliases, hnone]

theorem normalizeAliases_eq_ok {aliases normalized : List Bytes}
    (h : normalizeAliases unicode aliases = .ok normalized) :
    (∀ value ∈ aliases, checkAlias unicode value = none) ∧
      normalized = sortSlice (fun a b => a < b) aliases.dedup := by
  unfold normalizeAliases at h
  split at h
  · cases h
  · next hnone => exact ⟨List.findSome?_eq_none_iff.mp hnone, (Except.ok.inj h).symm⟩

theorem sorted_sortSlice_dedup (aliases : List Bytes) :
    (sortSlice (fun a b => a < b) aliases.dedup).Pairwise (· < ·) := by
  have hsorted : (sortSlice (fun a b => a < b) aliases.dedup).Pairwise fun a b => id a < id b :=
    sortSlice_pairwise_lt (fun a b => decide_eq_true_iff) (by simpa using aliases.nodup_dedup)
  exact hsorted

/-! ## Provenance -/

namespace Provenance

/-- Provenance made by `NewProvenance` from identifiers made by `NewSourceID` and
`NewRecordID`. -/
def Built (unicode : Unicode) (p : Provenance) : Prop :=
  ∃ source record aliases, newSourceID source = .ok source ∧ newRecordID record = .ok record ∧
    newProvenance unicode source record aliases = .ok p

/-- Identifiers without the separator of `key`, and aliases in normal form. -/
structure Normal (unicode : Unicode) (p : Provenance) : Prop where
  source_free : (0 : Byte) ∉ p.source
  record_free : (0 : Byte) ∉ p.record
  sorted : p.aliases.Pairwise (· < ·)
  checked : ∀ value ∈ p.aliases, checkAlias unicode value = none

end Provenance

theorem zero_notMem_of_validateProvenanceID {field : String} {value result : Bytes}
    (h : validateProvenanceID field value = .ok result) : (0 : Byte) ∉ value := by
  simp only [validateProvenanceID, ite_invalid_eq_ok, Bool.not_eq_true', Bool.not_eq_false,
    List.all_eq_true] at h
  intro hzero
  exact absurd (h.2.1 0 hzero) (by decide)

theorem Provenance.Built.normal (h : p.Built unicode) : p.Normal unicode := by
  obtain ⟨source, record, aliases, hsource, hrecord, hp⟩ := h
  simp only [newProvenance, ite_invalid_eq_ok] at hp
  obtain ⟨-, -, hp⟩ := hp
  obtain ⟨normalized, haliases, hp⟩ := bind_eq_ok.mp hp
  obtain rfl := Except.ok.inj hp
  obtain ⟨hchecked, rfl⟩ := normalizeAliases_eq_ok haliases
  refine ⟨zero_notMem_of_validateProvenanceID hsource,
    zero_notMem_of_validateProvenanceID hrecord, sorted_sortSlice_dedup aliases, ?_⟩
  intro value hvalue
  exact hchecked value (List.mem_dedup.mp (mem_sortSlice.mp hvalue))

namespace Provenance

/-- Provenance is ordered by source, then by record. -/
def place (p : Provenance) : Bytes ×ₗ Bytes := toLex (p.source, p.record)

theorem place_eq_iff : p.place = q.place ↔ p.source = q.source ∧ p.record = q.record := by
  rw [place, place, toLex_inj, Prod.mk.injEq]

theorem provenanceLess_iff (p q : Provenance) : provenanceLess p q = true ↔ p.place < q.place := by
  rw [place, place, Prod.Lex.toLex_lt_toLex]
  unfold provenanceLess
  by_cases h : p.source = q.source
  · simp [h]
  · simp [h]

variable {unicode : Unicode}

/-- The key is exact: identifiers do not contain its separator. -/
theorem Normal.key_eq_iff (hp : p.Normal unicode) : p.key = q.key ↔ p.place = q.place := by
  rw [place_eq_iff, key, key, List.append_assoc, List.append_assoc]
  constructor
  · intro h
    have := (List.append_cons_inj_of_notMem hp.source_free hp.record_free).mp h
    exact ⟨this.1, this.2.2⟩
  · rintro ⟨hsource, hrecord⟩
    rw [hsource, hrecord]

/-- What provenance can say: that a source has a record, or that the record of a source has
an alias. -/
inductive Fact where
  | listed (place : Bytes ×ₗ Bytes)
  | aliased (place : Bytes ×ₗ Bytes) (value : Bytes)

/-- One source relationship says this. -/
def Shows (p : Provenance) : Fact → Prop
  | .listed place => p.place = place
  | .aliased place value => p.place = place ∧ value ∈ p.aliases

/-- Some relationship of the list says this. -/
def States (l : List Provenance) (fact : Fact) : Prop := ∃ p ∈ l, p.Shows fact

@[simp] theorem states_append {fact : Fact} :
    States (l ++ l') fact ↔ States l fact ∨ States l' fact := by
  simp [States, or_and_right, exists_or]

/-- Relationships of one place with the same aliases are the same. -/
theorem eq_of_place_eq (hplace : p.place = q.place) (haliases : p.aliases = q.aliases) : p = q := by
  obtain ⟨hsource, hrecord⟩ := place_eq_iff.mp hplace
  obtain ⟨source, record, aliases⟩ := p
  obtain ⟨source', record', aliases'⟩ := q
  simp only at hsource hrecord haliases
  rw [hsource, hrecord, haliases]

/-- Sorted by source and record without repetition, with aliases in normal form. -/
structure Canonical (unicode : Unicode) (l : List Provenance) : Prop where
  increasing : l.Pairwise fun p q => p.place < q.place
  normal : ∀ p ∈ l, p.Normal unicode

/-- At most one relationship of a canonical list is at a place. -/
theorem Canonical.eq_of_place_eq (h : Canonical unicode l) (hp : p ∈ l) (hq : q ∈ l)
    (heq : p.place = q.place) : p = q := by
  have hnodup : (l.map place).Nodup := List.pairwise_map.mpr (h.increasing.imp fun hlt => hlt.ne)
  exact List.inj_on_of_nodup_map hnodup hp hq heq

theorem Canonical.subset (h : Canonical unicode l) (h' : Canonical unicode l')
    (hstates : ∀ fact, States l fact ↔ States l' fact) : l ⊆ l' := by
  intro p hp
  obtain ⟨q, hq, hplace⟩ := (hstates (.listed p.place)).mp ⟨p, hp, rfl⟩
  have hplace : q.place = p.place := hplace
  have haliases : q.aliases = p.aliases := by
    apply (h'.normal q hq).sorted.eq_of_mem_iff (h.normal p hp).sorted
    intro value
    constructor
    · intro hvalue
      obtain ⟨r, hr, hr', hmem⟩ := (hstates (.aliased p.place value)).mpr ⟨q, hq, hplace, hvalue⟩
      rwa [h.eq_of_place_eq hp hr hr'.symm]
    · intro hvalue
      obtain ⟨r, hr, hr', hmem⟩ := (hstates (.aliased p.place value)).mp ⟨p, hp, rfl, hvalue⟩
      rwa [h'.eq_of_place_eq hq hr (hplace.trans hr'.symm)]
  rwa [← Provenance.eq_of_place_eq hplace haliases]

/-- **Canonical provenance is determined by what it says.** -/
theorem Canonical.ext (h : Canonical unicode l) (h' : Canonical unicode l')
    (hstates : ∀ fact, States l fact ↔ States l' fact) : l = l' :=
  eq_of_mem_iff_of_pairwise_lt h.increasing h'.increasing fun _ =>
    ⟨fun hp => h.subset h' hstates hp, fun hp => h'.subset h (fun fact => (hstates fact).symm) hp⟩

/-! ### Merging -/

/-- Lists the loop of `mergeProvenance` builds: in no order yet, one element at a place. -/
structure Distinct (unicode : Unicode) (l : List Provenance) : Prop where
  nodup : (l.map place).Nodup
  normal : ∀ p ∈ l, p.Normal unicode

/-- The united aliases of two relationships. -/
theorem Normal.unite (hp : p.Normal unicode) (hq : q.Normal unicode) :
    ∃ aliases, normalizeAliases unicode (q.aliases ++ p.aliases) = .ok aliases ∧
      (∀ value, value ∈ aliases ↔ value ∈ q.aliases ∨ value ∈ p.aliases) ∧
      Normal unicode { q with aliases := aliases } := by
  have hchecked : ∀ value ∈ q.aliases ++ p.aliases, checkAlias unicode value = none :=
    List.forall_mem_append.mpr ⟨hq.checked, hp.checked⟩
  have hmem : ∀ value, value ∈ sortSlice (fun a b => a < b) (q.aliases ++ p.aliases).dedup ↔
      value ∈ q.aliases ∨ value ∈ p.aliases := by
    intro value
    rw [mem_sortSlice, List.mem_dedup, List.mem_append]
  refine ⟨_, normalizeAliases_of_checked hchecked, hmem, hq.source_free, hq.record_free,
    sorted_sortSlice_dedup _, ?_⟩
  intro value hvalue
  exact hchecked value (List.mem_append.mpr ((hmem value).mp hvalue))

/-- What the loop does to an element at a known place. -/
def united (unicode : Unicode) (p q : Provenance) : Provenance :=
  if q.key = p.key then
    { q with
      aliases := match normalizeAliases unicode (q.aliases ++ p.aliases) with
        | .ok aliases => aliases
        | .error _ => [] }
  else q

theorem place_united (p q : Provenance) : (united unicode p q).place = q.place := by
  unfold united
  split_ifs
  · rfl
  · rfl

theorem united_spec (hp : p.Normal unicode) (hq : q.Normal unicode) :
    (united unicode p q).Normal unicode ∧ ∀ value, value ∈ (united unicode p q).aliases ↔
      value ∈ q.aliases ∨ q.place = p.place ∧ value ∈ p.aliases := by
  unfold united
  split_ifs with hkey
  · obtain ⟨aliases, heq, hmem, hnormal⟩ := hp.unite hq
    rw [heq]
    refine ⟨hnormal, fun value => ?_⟩
    rw [hmem value, hq.key_eq_iff.mp hkey]
    simp
  · have hplace : q.place ≠ p.place := fun h => hkey (hq.key_eq_iff.mpr h)
    exact ⟨hq, fun value => by simp [hplace]⟩

/-- What a merged relationship says. -/
theorem shows_united_iff (hp : p.Normal unicode) (hq : q.Normal unicode) (fact : Fact) :
    (united unicode p q).Shows fact ↔ q.Shows fact ∨ q.place = p.place ∧ p.Shows fact := by
  cases fact with
  | listed place =>
    change (united unicode p q).place = place ↔
      q.place = place ∨ q.place = p.place ∧ p.place = place
    rw [place_united]
    refine ⟨.inl, ?_⟩
    rintro (h | ⟨hsame, h⟩)
    · exact h
    · exact hsame.trans h
  | aliased place value =>
    change (united unicode p q).place = place ∧ _ ↔
      q.place = place ∧ _ ∨ q.place = p.place ∧ p.place = place ∧ _
    rw [place_united, (united_spec hp hq).2 value]
    constructor
    · rintro ⟨hplace, hvalue | ⟨hsame, hvalue⟩⟩
      · exact .inl ⟨hplace, hvalue⟩
      · exact .inr ⟨hsame, hsame.symm.trans hplace, hvalue⟩
    · rintro (⟨hplace, hvalue⟩ | ⟨hsame, hplace, hvalue⟩)
      · exact ⟨hplace, .inl hvalue⟩
      · exact ⟨hsame.trans hplace, .inr ⟨hsame, hvalue⟩⟩

/-- One step of the loop of `mergeProvenance`. -/
theorem mergeProvenanceStep_spec {merged : List Provenance} (hmerged : Distinct unicode merged)
    (hp : p.Normal unicode) :
    Distinct unicode (mergeProvenanceStep unicode merged p) ∧
      ∀ fact, States (mergeProvenanceStep unicode merged p) fact ↔ States (merged ++ [p]) fact := by
  have hknown : (merged.any fun q => q.key = p.key) = true ↔ ∃ q ∈ merged, q.place = p.place := by
    rw [List.any_eq_true]
    refine exists_congr fun q => and_congr_right fun hq => ?_
    rw [decide_eq_true_iff, (hmerged.normal q hq).key_eq_iff]
  by_cases h : (merged.any fun q => q.key = p.key) = true
  · have hstep : mergeProvenanceStep unicode merged p = merged.map (united unicode p) := by
      rw [mergeProvenanceStep, if_pos h]
      rfl
    have hplaces : (merged.map (united unicode p)).map place = merged.map place := by
      rw [List.map_map]
      exact List.map_congr_left fun q _ => place_united p q
    obtain ⟨q₀, hq₀, hplace₀⟩ := hknown.mp h
    rw [hstep]
    refine ⟨⟨by rw [hplaces]; exact hmerged.nodup, ?_⟩, fun fact => ?_⟩
    · intro q' hq'
      obtain ⟨q, hq, rfl⟩ := List.mem_map.mp hq'
      exact (united_spec hp (hmerged.normal q hq)).1
    · rw [states_append]
      constructor
      · rintro ⟨q', hq', hshows⟩
        obtain ⟨q, hq, rfl⟩ := List.mem_map.mp hq'
        rcases (shows_united_iff hp (hmerged.normal q hq) fact).mp hshows with hshows | ⟨-, hshows⟩
        · exact .inl ⟨q, hq, hshows⟩
        · exact .inr ⟨p, by simp, hshows⟩
      · rintro (⟨q, hq, hshows⟩ | ⟨q, hq, hshows⟩)
        · exact ⟨_, List.mem_map_of_mem hq,
            (shows_united_iff hp (hmerged.normal q hq) fact).mpr (.inl hshows)⟩
        · obtain rfl := List.mem_singleton.mp hq
          exact ⟨_, List.mem_map_of_mem hq₀,
            (shows_united_iff hp (hmerged.normal q₀ hq₀) fact).mpr (.inr ⟨hplace₀, hshows⟩)⟩
  · rw [mergeProvenanceStep, if_neg h]
    refine ⟨⟨?_, ?_⟩, fun _ => Iff.rfl⟩
    · rw [List.map_append]
      refine hmerged.nodup.append (List.nodup_singleton _) ?_
      simp only [List.map_cons, List.map_nil, List.disjoint_singleton]
      intro hmem
      obtain ⟨q, hq, hplace⟩ := List.mem_map.mp hmem
      exact h (hknown.mpr ⟨q, hq, hplace⟩)
    · exact forall_mem_concat.mpr ⟨hmerged.normal, hp⟩

/-- The loop of `mergeProvenance`. -/
theorem foldl_mergeProvenanceStep {merged : List Provenance} (hmerged : Distinct unicode merged)
    (hl : ∀ p ∈ l, p.Normal unicode) :
    Distinct unicode (l.foldl (mergeProvenanceStep unicode) merged) ∧
      ∀ fact, States (l.foldl (mergeProvenanceStep unicode) merged) fact ↔
        States (merged ++ l) fact := by
  induction l generalizing merged with
  | nil =>
    rw [List.append_nil]
    exact ⟨hmerged, fun _ => Iff.rfl⟩
  | cons p l ih =>
    obtain ⟨hdistinct, hstates⟩ := mergeProvenanceStep_spec hmerged (hl p (by simp))
    obtain ⟨hdistinct', hstates'⟩ := ih hdistinct fun q hq => hl q (by simp [hq])
    refine ⟨hdistinct', fun fact => ?_⟩
    rw [List.foldl_cons, hstates', states_append, hstates, ← states_append, List.append_assoc]
    rfl

/-- **Merged provenance is canonical and says what its parts say.** -/
theorem mergeProvenance_spec {groups : List (List Provenance)}
    (h : ∀ p ∈ groups.flatten, p.Normal unicode) :
    Canonical unicode (mergeProvenance unicode groups) ∧
      ∀ fact, States (mergeProvenance unicode groups) fact ↔ States groups.flatten fact := by
  have hempty : Distinct unicode [] := ⟨List.nodup_nil, by simp⟩
  obtain ⟨hdistinct, hstates⟩ := foldl_mergeProvenanceStep hempty h
  rw [List.nil_append] at hstates
  refine ⟨⟨sortSlice_pairwise_lt provenanceLess_iff hdistinct.nodup, ?_⟩, fun fact => ?_⟩
  · intro p hp
    exact hdistinct.normal p (mem_sortSlice.mp hp)
  · rw [← hstates fact]
    exact exists_congr fun p => and_congr_left fun _ => mem_sortSlice

end Provenance

open Provenance

/-! ## Records -/

namespace Record

/-- A record made by `NewRecord` from a configuration and provenance made by their
constructors. -/
def New (unicode : Unicode) (record : Record) : Prop :=
  ∃ configuration provenance, Configuration.Built unicode configuration ∧
    (∀ p ∈ provenance, Provenance.Built unicode p) ∧
    newRecord unicode configuration provenance = .ok record

/-- What records from `NewRecord` and from an inventory have in common. -/
structure Sound (unicode : Unicode) (record : Record) : Prop where
  shaped : record.configuration.Shaped
  named : record.provenance ≠ []
  valid : ∀ p ∈ record.provenance, p.valid = true
  canonical : Canonical unicode record.provenance

theorem New.sound (h : record.New unicode) : record.Sound unicode := by
  obtain ⟨configuration, provenance, hconfiguration, hprovenance, hnew⟩ := h
  have hbuilt := Record.Built.new hconfiguration hnew
  obtain ⟨-, hnamed, hvalid⟩ := Record.valid_iff.mp hbuilt.valid
  refine ⟨hbuilt.configuration.shaped, hnamed, hvalid, ?_⟩
  simp only [newRecord, ite_invalid_eq_ok] at hnew
  obtain ⟨-, -, -, hnew⟩ := hnew
  obtain rfl := Except.ok.inj hnew
  refine (mergeProvenance_spec fun p hp => ?_).1
  exact (hprovenance p (by simpa using hp)).normal

theorem Sound.valid_eq (h : record.Sound unicode) :
    record.valid = true := Record.valid_iff.mpr ⟨h.shaped.valid, h.named, h.valid⟩

end Record

/-- The comparison of `sortRecords` is the order of identities. -/
theorem recordLess_iff (sum256 : Bytes → Digest) (left right : Record) :
    recordLess sum256 left right = true ↔ left.identity sum256 < right.identity sum256 := by
  obtain ⟨⟨⟨value⟩, revision⟩, hleft⟩ : ∃ i, i = left.identity sum256 := ⟨_, rfl⟩
  obtain ⟨⟨⟨value'⟩, revision'⟩, hright⟩ : ∃ i, i = right.identity sum256 := ⟨_, rfl⟩
  rw [recordLess, ← hleft, ← hright, Identity.lt_iff_key, Identity.key, Identity.key,
    Prod.Lex.toLex_lt_toLex]
  by_cases hid : value = value'
  · cases revision with
    | none =>
      cases revision' with
      | none => simp [hid, Identity.revisionKey]
      | some right =>
        have hlt : ([] : Bytes) < right.val := by
          obtain ⟨byte, rest, h⟩ := List.exists_cons_of_ne_nil fun h : right.val = [] =>
            absurd right.property (by simp [h])
          rw [h]
          exact List.nil_lt_cons byte rest
        simpa [hid, Identity.revisionKey, bytesCompare_eq_lt_iff] using hlt
    | some left =>
      cases revision' with
      | none | some right => simp [hid, Identity.revisionKey, bytesCompare_eq_lt_iff]
  · simp [hid]

/-! ## The union -/

section Union

variable (unicode : Unicode) (sum256 : Bytes → Digest)

/-- `inventory` is the canonical union of `records`: strictly increasing in identity, with
exactly the identities of the records; each with a configuration among theirs and with
provenance that is canonical and says what the records of that identity say. -/
structure Unified (records inventory : List Record) : Prop where
  increasing : inventory.Pairwise fun left right => left.identity sum256 < right.identity sum256
  identities : ∀ identity, (∃ r ∈ inventory, r.identity sum256 = identity) ↔
    ∃ r ∈ records, r.identity sum256 = identity
  configurations : ∀ r ∈ inventory, ∃ r' ∈ records, r'.configuration = r.configuration
  canonical : ∀ r ∈ inventory, Canonical unicode r.provenance
  states : ∀ r ∈ inventory, ∀ fact, States r.provenance fact ↔
    ∃ r' ∈ records, r'.identity sum256 = r.identity sum256 ∧ States r'.provenance fact

/-- The configurations of the records. -/
def configurationsOf (records : List Record) : Set Configuration :=
  { c | ∃ r ∈ records, r.configuration = c }

variable {unicode sum256} {records records' inventory inventory' : List Record}

variable (sum256) in
/-- Records of one identity have one configuration. -/
def Distinguished (records : List Record) : Prop :=
  ∀ r ∈ records, ∀ r' ∈ records, r.identity sum256 = r'.identity sum256 →
    r.configuration = r'.configuration

theorem distinguished_nil (sum256 : Bytes → Digest) : Distinguished sum256 [] := by
  rintro r ⟨⟩

theorem distinguished_concat :
    Distinguished sum256 (records ++ [record]) ↔ Distinguished sum256 records ∧
      ∀ r ∈ records, r.identity sum256 = record.identity sum256 →
        r.configuration = record.configuration := by
  constructor
  · intro h
    exact ⟨fun r hr r' hr' => h r (List.mem_append_left _ hr) r' (List.mem_append_left _ hr'),
      fun r hr => h r (List.mem_append_left _ hr) record (by simp)⟩
  · rintro ⟨h, hsame⟩
    refine forall_mem_concat.mpr ⟨fun r hr => ?_, forall_mem_concat.mpr ⟨?_, fun _ => rfl⟩⟩
    · exact forall_mem_concat.mpr ⟨h r hr, hsame r hr⟩
    · exact fun r hr hidentity => (hsame r hr hidentity.symm).symm

/-- Without a collision of the hash, configurations are told apart by their identities. -/
theorem distinguished_of_collisionFree
    (hfree : Configuration.CollisionFree sum256 (configurationsOf records))
    (hsound : ∀ r ∈ records, r.Sound unicode) : Distinguished sum256 records := by
  intro r hr r' hr' hidentity
  exact Configuration.eq_of_identity_eq hfree (hsound r hr).shaped (hsound r' hr').shaped
    ⟨r, hr, rfl⟩ ⟨r', hr', rfl⟩ hidentity

/-- Fewer configurations are told apart. -/
theorem Distinguished.of_subset (hdistinguished : Distinguished sum256 records')
    (h : ∀ r ∈ records, ∃ r' ∈ records', r'.configuration = r.configuration) :
    Distinguished sum256 records := by
  intro r hr s hs hidentity
  obtain ⟨r', hr', hconfiguration⟩ := h r hr
  obtain ⟨s', hs', hconfiguration'⟩ := h s hs
  rw [← hconfiguration, ← hconfiguration']
  apply hdistinguished r' hr' s' hs'
  rw [Record.identity, Record.identity, hconfiguration, hconfiguration']
  exact hidentity

namespace Unified

/-- Only the set of records matters. -/
theorem congr (h : Unified unicode sum256 records inventory)
    (hmem : ∀ r, r ∈ records ↔ r ∈ records') : Unified unicode sum256 records' inventory where
  increasing := h.increasing
  identities := by
    intro identity
    rw [h.identities identity]
    exact exists_congr fun r => and_congr_left fun _ => hmem r
  configurations := by
    intro r hr
    obtain ⟨r', hr', heq⟩ := h.configurations r hr
    exact ⟨r', (hmem r').mp hr', heq⟩
  canonical := h.canonical
  states := by
    intro r hr fact
    rw [h.states r hr fact]
    exact exists_congr fun r' => and_congr_left fun _ => hmem r'

/-- A union of a union. -/
theorem trans (h : Unified unicode sum256 records inventory)
    (h' : Unified unicode sum256 (inventory ++ records') inventory') :
    Unified unicode sum256 (records ++ records') inventory' where
  increasing := h'.increasing
  identities := by
    intro identity
    rw [h'.identities identity]
    simp only [List.mem_append, or_and_right, exists_or]
    exact or_congr (h.identities identity) Iff.rfl
  configurations := by
    intro r hr
    obtain ⟨r', hr', heq⟩ := h'.configurations r hr
    rcases List.mem_append.mp hr' with hr' | hr'
    · obtain ⟨r'', hr'', heq'⟩ := h.configurations r' hr'
      exact ⟨r'', List.mem_append_left _ hr'', heq'.trans heq⟩
    · exact ⟨r', List.mem_append_right _ hr', heq⟩
  canonical := h'.canonical
  states := by
    intro r hr fact
    rw [h'.states r hr fact]
    simp only [List.mem_append, or_and_right, exists_or]
    refine or_congr ⟨?_, ?_⟩ Iff.rfl
    · rintro ⟨r', hr', heq, hstates⟩
      obtain ⟨r'', hr'', heq', hstates⟩ := (h.states r' hr' fact).mp hstates
      exact ⟨r'', hr'', heq'.trans heq, hstates⟩
    · rintro ⟨r'', hr'', heq, hstates⟩
      obtain ⟨r', hr', heq'⟩ := (h.identities _).mpr ⟨r'', hr'', heq⟩
      exact ⟨r', hr', heq', (h.states r' hr' fact).mpr ⟨r'', hr'', heq.trans heq'.symm, hstates⟩⟩

/-- **The canonical union is unique** where identities tell the records apart. -/
theorem unique (hdistinguished : Distinguished sum256 records)
    (h : Unified unicode sum256 records inventory)
    (h' : Unified unicode sum256 records inventory') : inventory = inventory' := by
  have hsub : ∀ {inventory inventory' : List Record}, Unified unicode sum256 records inventory →
      Unified unicode sum256 records inventory' → ∀ r ∈ inventory, r ∈ inventory' := by
    intro inventory inventory' h h' r hr
    obtain ⟨r', hr', hidentity⟩ := (h'.identities _).mpr ((h.identities _).mp ⟨r, hr, rfl⟩)
    have hprovenance : r'.provenance = r.provenance := by
      apply (h'.canonical r' hr').ext (h.canonical r hr)
      intro fact
      rw [h'.states r' hr', h.states r hr, hidentity]
    have hconfiguration : r'.configuration = r.configuration := by
      obtain ⟨s, hs, hs'⟩ := h.configurations r hr
      obtain ⟨t, ht, ht'⟩ := h'.configurations r' hr'
      rw [← hs', ← ht']
      apply hdistinguished t ht s hs
      rw [Record.identity, Record.identity, hs', ht']
      exact hidentity
    obtain ⟨configuration, provenance⟩ := r
    obtain ⟨configuration', provenance'⟩ := r'
    simp only at hprovenance hconfiguration
    rwa [hprovenance, hconfiguration] at hr'
  refine eq_of_mem_iff_of_pairwise_lt h.increasing h'.increasing fun r => ⟨?_, ?_⟩
  · exact hsub h h' r
  · exact hsub h' h r

/-- The records of a union are like those it was made from. -/
theorem sound (h : Unified unicode sum256 records inventory)
    (hsound : ∀ r ∈ records, r.Sound unicode) : ∀ r ∈ inventory, r.Sound unicode := by
  intro r hr
  obtain ⟨r', hr', heq⟩ := h.configurations r hr
  have hidentity : r'.identity sum256 = r.identity sum256 := by
    rw [Record.identity, heq]
    rfl
  refine ⟨heq ▸ (hsound r' hr').shaped, ?_, ?_, h.canonical r hr⟩
  · intro hnil
    obtain ⟨p, hp⟩ := List.exists_mem_of_ne_nil _ (hsound r' hr').named
    obtain ⟨q, hq, -⟩ := (h.states r hr (.listed p.place)).mpr ⟨r', hr', hidentity, p, hp, rfl⟩
    rw [hnil] at hq
    cases hq
  · intro p hp
    obtain ⟨r'', hr'', -, q, hq, hplace⟩ := (h.states r hr (.listed p.place)).mp ⟨p, hp, rfl⟩
    obtain ⟨hsource, hrecord⟩ := place_eq_iff.mp hplace
    have hvalid := (hsound r'' hr'').valid q hq
    rwa [Provenance.valid, hsource, hrecord] at hvalid

end Unified

/-! ## The loop -/

theorem unified_nil : Unified unicode sum256 [] [] :=
  ⟨List.Pairwise.nil, by simp, by simp, by simp, by simp⟩

/-- A record above all before it starts a run of its own. -/
theorem Unified.concat (h : Unified unicode sum256 records inventory)
    (hsound : record.Sound unicode)
    (habove : ∀ r ∈ inventory, r.identity sum256 < record.identity sum256) :
    Unified unicode sum256 (records ++ [record]) (inventory ++ [record]) := by
  have hother : ∀ r ∈ records, r.identity sum256 ≠ record.identity sum256 := by
    intro r hr heq
    obtain ⟨r', hr', heq'⟩ := (h.identities _).mpr ⟨r, hr, heq⟩
    exact absurd heq' (habove r' hr').ne
  -- what the inputs of an identity say, apart from the new record
  have hold : ∀ r ∈ inventory, ∀ stated : Record → Prop,
      (∃ r' ∈ records ++ [record], r'.identity sum256 = r.identity sum256 ∧ stated r') ↔
        ∃ r' ∈ records, r'.identity sum256 = r.identity sum256 ∧ stated r' := by
    intro r hr stated
    constructor
    · rintro ⟨r', hr', heq, hstated⟩
      rcases List.mem_append.mp hr' with hr' | hr'
      · exact ⟨r', hr', heq, hstated⟩
      · obtain rfl := List.mem_singleton.mp hr'
        exact absurd heq.symm (habove r hr).ne
    · rintro ⟨r', hr', heq, hstated⟩
      exact ⟨r', List.mem_append_left _ hr', heq, hstated⟩
  have hnew : ∀ stated : Record → Prop,
      (∃ r' ∈ records ++ [record], r'.identity sum256 = record.identity sum256 ∧ stated r') ↔
        stated record := by
    intro stated
    constructor
    · rintro ⟨r', hr', heq, hstated⟩
      rcases List.mem_append.mp hr' with hr' | hr'
      · exact absurd heq (hother r' hr')
      · rwa [← List.mem_singleton.mp hr']
    · intro hstated
      exact ⟨record, by simp, rfl, hstated⟩
  refine ⟨?_, ?_, ?_, ?_, ?_⟩
  · refine List.pairwise_append.mpr ⟨h.increasing, List.pairwise_singleton _ _, ?_⟩
    exact fun r hr => List.forall_mem_singleton.mpr (habove r hr)
  · intro identity
    simp only [List.mem_append, or_and_right, exists_or]
    exact or_congr (h.identities identity) Iff.rfl
  · refine forall_mem_concat.mpr ⟨fun r hr => ?_, record, by simp, rfl⟩
    obtain ⟨r', hr', heq⟩ := h.configurations r hr
    exact ⟨r', List.mem_append_left _ hr', heq⟩
  · exact forall_mem_concat.mpr ⟨h.canonical, hsound.canonical⟩
  · refine forall_mem_concat.mpr ⟨fun r hr fact => ?_, fun fact => ?_⟩
    · rw [hold r hr, h.states r hr]
    · rw [hnew]

/-- A record of the last identity is merged into it. -/
theorem Unified.merge {last : Record} (h : Unified unicode sum256 records (inventory ++ [last]))
    (hsound : record.Sound unicode) (hidentity : last.identity sum256 = record.identity sum256) :
    Unified unicode sum256 (records ++ [record]) (inventory ++ [⟨last.configuration,
      mergeProvenance unicode [last.provenance, record.provenance]⟩]) := by
  have hlast := h.canonical last (by simp)
  have hnormal : ∀ p ∈ [last.provenance, record.provenance].flatten, p.Normal unicode := by
    intro p hp
    rcases (by simpa using hp : p ∈ last.provenance ∨ p ∈ record.provenance) with hp | hp
    · exact hlast.normal p hp
    · exact hsound.canonical.normal p hp
  have hflatten : [last.provenance, record.provenance].flatten =
      last.provenance ++ record.provenance := by simp
  obtain ⟨hcanonical, hstates⟩ := mergeProvenance_spec hnormal
  rw [hflatten] at hstates
  obtain ⟨hincreasing, -, hbelow⟩ := List.pairwise_append.mp h.increasing
  have hbelow : ∀ r ∈ inventory, r.identity sum256 < last.identity sum256 :=
    fun r hr => hbelow r hr last (by simp)
  have hstated : ∀ (identity : Identity) (stated : Record → Prop),
      (∃ r' ∈ records ++ [record], r'.identity sum256 = identity ∧ stated r') ↔
        (∃ r' ∈ records, r'.identity sum256 = identity ∧ stated r') ∨
          record.identity sum256 = identity ∧ stated record := by
    intro identity stated
    simp [or_and_right, exists_or]
  refine ⟨?_, ?_, ?_, ?_, ?_⟩
  · refine List.pairwise_append.mpr ⟨hincreasing, List.pairwise_singleton _ _, ?_⟩
    exact fun r hr => List.forall_mem_singleton.mpr (hbelow r hr)
  · intro identity
    have hold := h.identities identity
    simp only [List.mem_append, List.mem_singleton, or_and_right, exists_or, exists_eq_left]
      at hold ⊢
    constructor
    · intro hmem
      exact .inl (hold.mp hmem)
    · rintro (hmem | rfl)
      · exact hold.mpr hmem
      · exact .inr hidentity
  · have hsource : ∀ r ∈ inventory ++ [last], ∃ r' ∈ records ++ [record],
        r'.configuration = r.configuration := by
      intro r hr
      obtain ⟨r', hr', heq⟩ := h.configurations r hr
      exact ⟨r', List.mem_append_left _ hr', heq⟩
    obtain ⟨hbefore, hmerged⟩ := forall_mem_concat.mp hsource
    exact forall_mem_concat.mpr ⟨hbefore, hmerged⟩
  · exact forall_mem_concat.mpr ⟨(forall_mem_concat.mp h.canonical).1, hcanonical⟩
  · refine forall_mem_concat.mpr ⟨fun r hr fact => ?_, fun fact => ?_⟩
    · rw [hstated, h.states r (List.mem_append_left _ hr)]
      simp [hidentity ▸ (hbelow r hr).ne']
    · rw [hstated]
      change States (mergeProvenance unicode _) fact ↔
        (∃ r' ∈ records, r'.identity sum256 = last.identity sum256 ∧ _) ∨
          record.identity sum256 = last.identity sum256 ∧ _
      rw [hstates, states_append, h.states last (by simp)]
      simp only [hidentity, true_and]

/-- One step of the loop of `Deduplicate`, on a record not below those before it: it succeeds
exactly if the record is told apart from them. -/
theorem deduplicateStep_spec (hdistinguished : Distinguished sum256 records)
    (hsound : ∀ r ∈ records ++ [record], r.Sound unicode)
    (hmax : ∀ r ∈ records, r.identity sum256 ≤ record.identity sum256)
    (h : Unified unicode sum256 records inventory) :
    (Distinguished sum256 (records ++ [record]) ∧
      ∃ next, deduplicateStep unicode sum256 inventory record = .ok next ∧
        Unified unicode sum256 (records ++ [record]) next) ∨
    (¬Distinguished sum256 (records ++ [record]) ∧
      ∃ e, deduplicateStep unicode sum256 inventory record = .error e) := by
  have hrecord := hsound record (by simp)
  -- a record above all runs has a new identity
  have hnew : (∀ r ∈ inventory, r.identity sum256 < record.identity sum256) →
      Distinguished sum256 (records ++ [record]) := by
    refine fun hbelow => distinguished_concat.mpr ⟨hdistinguished, fun r hr hidentity => ?_⟩
    obtain ⟨known, hknown, heq⟩ := (h.identities _).mpr ⟨r, hr, hidentity⟩
    exact absurd heq (hbelow known hknown).ne
  rcases List.eq_nil_or_concat inventory with rfl | ⟨runs, last, rfl⟩
  · exact .inl ⟨hnew (by simp), [record], rfl, h.concat hrecord (by simp)⟩
  rw [List.concat_eq_append] at h hnew ⊢
  have hmem : last ∈ runs ++ [last] := by simp
  obtain ⟨source, hsource, hconfiguration⟩ := h.configurations last hmem
  have hshaped : last.configuration.Shaped :=
    hconfiguration ▸ (hsound source (List.mem_append_left _ hsource)).shaped
  have hsourceIdentity : source.identity sum256 = last.identity sum256 := by
    rw [Record.identity, hconfiguration]
    rfl
  unfold deduplicateStep
  simp only [List.getLast?_append, List.getLast?_singleton, Option.some_or, List.dropLast_concat]
  by_cases hequal : (last.identity sum256).equal (record.identity sum256) = true
  · have hidentity := Identity.equal_iff.mp hequal
    simp only [hequal, mergeMatchingRecords]
    by_cases hsame : last.configuration = record.configuration
    · refine .inl ⟨distinguished_concat.mpr ⟨hdistinguished, fun r hr hr' => ?_⟩, _, ?_,
        h.merge hrecord hidentity⟩
      · rw [← hsame, ← hconfiguration]
        exact hdistinguished r hr source hsource
          (hr'.trans (hidentity.symm.trans hsourceIdentity.symm))
      · simp only [(hshaped.equivalent_iff hrecord.shaped).mpr hsame]
        rfl
    · refine .inr ⟨fun hall => hsame ?_, ?_⟩
      · rw [← hconfiguration]
        exact (distinguished_concat.mp hall).2 source hsource (hsourceIdentity.trans hidentity)
      · simp only [mt (hshaped.equivalent_iff hrecord.shaped).mp hsame]
        exact ⟨_, rfl⟩
  · -- the last run is the greatest so far, and it is below the record
    have hlt : last.identity sum256 < record.identity sum256 :=
      lt_of_le_of_ne (hsourceIdentity ▸ hmax source hsource)
        fun heq => hequal (Identity.equal_iff.mpr heq)
    have hbelow : ∀ r ∈ runs ++ [last], r.identity sum256 < record.identity sum256 :=
      forall_mem_concat.mpr ⟨fun r hr =>
        ((List.pairwise_append.mp h.increasing).2.2 r hr last (by simp)).trans hlt, hlt⟩
    exact .inl ⟨hnew hbelow, runs ++ [last] ++ [record], by simp only [hequal]; rfl,
      h.concat hrecord hbelow⟩

/-- The loop of `Deduplicate`, over records in the order of their identities. -/
theorem foldlM_deduplicateStep (hdistinguished : Distinguished sum256 records)
    (hsound : ∀ r ∈ records ++ records', r.Sound unicode)
    (hsorted : (records ++ records').Pairwise fun left right =>
      left.identity sum256 ≤ right.identity sum256)
    (h : Unified unicode sum256 records inventory) :
    (Distinguished sum256 (records ++ records') ∧
      ∃ final, records'.foldlM (deduplicateStep unicode sum256) inventory = .ok final ∧
        Unified unicode sum256 (records ++ records') final) ∨
    (¬Distinguished sum256 (records ++ records') ∧
      ∃ e, records'.foldlM (deduplicateStep unicode sum256) inventory = .error e) := by
  induction records' generalizing records inventory with
  | nil =>
    rw [List.append_nil]
    exact .inl ⟨hdistinguished, inventory, rfl, h⟩
  | cons record rest ih =>
    rw [List.append_cons] at hsound hsorted ⊢
    have hsub : ∀ r ∈ records ++ [record], r ∈ records ++ [record] ++ rest :=
      fun r hr => List.mem_append_left _ hr
    have hmax : ∀ r ∈ records, r.identity sum256 ≤ record.identity sum256 := fun r hr =>
      (List.pairwise_append.mp (List.pairwise_append.mp hsorted).1).2.2 r hr record (by simp)
    rw [List.foldlM_cons]
    rcases deduplicateStep_spec hdistinguished (fun r hr => hsound r (hsub r hr)) hmax h with
      ⟨hapart, next, hstep, hnext⟩ | ⟨hnot, e, hstep⟩
    · rw [hstep]
      exact ih hapart hsound hsorted hnext
    · rw [hstep]
      exact .inr ⟨fun hall => hnot (hall.of_subset fun r hr => ⟨r, hsub r hr, rfl⟩), e, rfl⟩

section

variable (hdistinguished : Distinguished sum256 records)
include hdistinguished

/-- The loop over any arrangement of the records in the order of their identities. -/
theorem foldlM_ordered {ordered : List Record} (hsound : ∀ r ∈ records, r.Sound unicode)
    (hperm : ordered.Perm records)
    (hsorted : ordered.Pairwise fun left right => left.identity sum256 ≤ right.identity sum256) :
    ∃ final, ordered.foldlM (deduplicateStep unicode sum256) [] = .ok final ∧
      Unified unicode sum256 records final := by
  rcases foldlM_deduplicateStep (distinguished_nil sum256)
      (fun r hr => hsound r (hperm.mem_iff.mp hr)) hsorted unified_nil with
    ⟨-, final, hloop, hunified⟩ | ⟨hnot, -⟩
  · exact ⟨final, hloop, hunified.congr fun r => hperm.mem_iff⟩
  · exact absurd (hdistinguished.of_subset fun r hr => ⟨r, hperm.mem_iff.mp hr, rfl⟩) hnot

/-- **`Deduplicate` returns the canonical union.** -/
theorem deduplicate_unified (hsound : ∀ r ∈ records, r.Sound unicode) :
    ∃ inventory, deduplicate unicode sum256 records = .ok inventory ∧
      Unified unicode sum256 records inventory := by
  have hvalid : records.all Record.valid = true := by
    rw [List.all_eq_true]
    exact fun r hr => (hsound r hr).valid_eq
  rw [deduplicate, hvalid]
  exact foldlM_ordered hdistinguished hsound (sortSlice_perm _ _)
    (sortSlice_pairwise_le (recordLess_iff sum256) records)

end

/-- **`Deduplicate` succeeds exactly if identities tell the records apart.** -/
theorem distinguished_of_deduplicate (hsound : ∀ r ∈ records, r.Sound unicode)
    (h : deduplicate unicode sum256 records = .ok inventory) : Distinguished sum256 records := by
  simp only [deduplicate, ite_invalid_eq_ok] at h
  have hperm := sortSlice_perm (recordLess sum256) records
  rcases foldlM_deduplicateStep (distinguished_nil sum256)
      (fun r hr => hsound r (hperm.mem_iff.mp hr))
      (sortSlice_pairwise_le (recordLess_iff sum256) records) unified_nil with
    ⟨hdistinguished, -⟩ | ⟨-, e, herror⟩
  · exact hdistinguished.of_subset fun r hr => ⟨r, hperm.mem_iff.mpr hr, rfl⟩
  · cases h.2.symm.trans herror

/-- **The order of the records does not matter**, not even for a conflict. -/
theorem deduplicate_perm (hsound : ∀ r ∈ records, r.Sound unicode) (hperm : records'.Perm records)
    (h : deduplicate unicode sum256 records = .ok inventory) :
    deduplicate unicode sum256 records' = .ok inventory := by
  have hdistinguished := distinguished_of_deduplicate hsound h
  have hdistinguished' : Distinguished sum256 records' :=
    hdistinguished.of_subset fun r hr => ⟨r, hperm.mem_iff.mp hr, rfl⟩
  obtain ⟨inventory', hok', hunified'⟩ :=
    deduplicate_unified hdistinguished' fun r hr => hsound r (hperm.mem_iff.mp hr)
  obtain ⟨inventory'', hok, hunified⟩ := deduplicate_unified hdistinguished hsound
  obtain rfl : inventory = inventory'' := Except.ok.inj (h.symm.trans hok)
  rw [hok', hunified.unique hdistinguished (hunified'.congr fun r => hperm.mem_iff)]

end Union

/-- **`Deduplicate` is a canonical union.**  For records made by `NewRecord` the result is
the canonical union of the inputs; every permutation of the inputs and every arrangement the
sort may choose gives the same; and deduplicating the result with further records is
deduplicating everything. -/
theorem deduplicate_canonical_union (unicode : Unicode) (sum256 : Bytes → Digest)
    {x y : List Record} (hx : ∀ r ∈ x, r.New unicode) (hy : ∀ r ∈ y, r.New unicode)
    (hfree : Configuration.CollisionFree sum256 (configurationsOf (x ++ y))) :
    ∃ inventory, deduplicate unicode sum256 x = .ok inventory ∧
      Unified unicode sum256 x inventory ∧
      (∀ x' : List Record, x'.Perm x → deduplicate unicode sum256 x' = .ok inventory) ∧
      (∀ ordered : List Record, ordered.Perm x → ordered.Pairwise (fun left right =>
          left.identity sum256 ≤ right.identity sum256) →
        ordered.foldlM (deduplicateStep unicode sum256) [] = .ok inventory) ∧
      deduplicate unicode sum256 (inventory ++ y) = deduplicate unicode sum256 (x ++ y) := by
  have hsoundx : ∀ r ∈ x, r.Sound unicode := fun r hr => (hx r hr).sound
  have hsoundy : ∀ r ∈ y, r.Sound unicode := fun r hr => (hy r hr).sound
  have hsound : ∀ r ∈ x ++ y, r.Sound unicode := List.forall_mem_append.mpr ⟨hsoundx, hsoundy⟩
  have hdistinguished : Distinguished sum256 (x ++ y) := distinguished_of_collisionFree hfree hsound
  have hdistinguishedx : Distinguished sum256 x :=
    hdistinguished.of_subset fun r hr => ⟨r, List.mem_append_left _ hr, rfl⟩
  obtain ⟨inventory, hok, hunified⟩ := deduplicate_unified hdistinguishedx hsoundx
  refine ⟨inventory, hok, hunified, ?_, ?_, ?_⟩
  · exact fun x' hperm => deduplicate_perm hsoundx hperm hok
  · intro ordered hperm hsorted
    obtain ⟨final, hloop, hfinal⟩ := foldlM_ordered hdistinguishedx hsoundx hperm hsorted
    rw [hloop, hunified.unique hdistinguishedx hfinal]
  · have hsound' : ∀ r ∈ inventory ++ y, r.Sound unicode :=
      List.forall_mem_append.mpr ⟨hunified.sound hsoundx, hsoundy⟩
    have hdistinguished' : Distinguished sum256 (inventory ++ y) := by
      refine hdistinguished.of_subset (List.forall_mem_append.mpr ⟨fun r hr => ?_, fun r hr => ?_⟩)
      · obtain ⟨r', hr', heq⟩ := hunified.configurations r hr
        exact ⟨r', List.mem_append_left _ hr', heq⟩
      · exact ⟨r, List.mem_append_right _ hr, rfl⟩
    obtain ⟨twice, htwice, hunified'⟩ := deduplicate_unified hdistinguished' hsound'
    obtain ⟨once, honce, hunified''⟩ := deduplicate_unified hdistinguished hsound
    rw [htwice, honce, (hunified.trans hunified').unique hdistinguished hunified'']

end

namespace Sample

/-- A source relationship of the sample record with one alias. -/
def relation (value : Bytes) : Provenance := ⟨ascii "source", ascii "record", [value]⟩

def aliasedRecord (password value : Bytes) : Record := ⟨hysteria password, [relation value]⟩

theorem relation_built {value : Bytes} (h : normalizeAliases unicode [value] = .ok [value]) :
    (relation value).Built unicode :=
  ⟨ascii "source", ascii "record", [value], by decide +kernel, by decide +kernel, by
    rw [newProvenance, if_neg (by decide), if_neg (by decide), h]
    rfl⟩

/-- A record seen twice under two names, and another revision of its endpoint. -/
theorem deduplicate_canonical_union_aliases :
    ∃ inventory, deduplicate unicode sum256 [aliasedRecord (ascii "old") (ascii "b"),
        aliasedRecord (ascii "old") (ascii "a")] = .ok inventory ∧
      deduplicate unicode sum256 (inventory ++ [aliasedRecord (ascii "new") (ascii "c")]) =
        deduplicate unicode sum256 ([aliasedRecord (ascii "old") (ascii "b"),
          aliasedRecord (ascii "old") (ascii "a")] ++
            [aliasedRecord (ascii "new") (ascii "c")]) := by
  have hnew : ∀ password ∈ [ascii "old", ascii "new"], ∀ value ∈ [ascii "a", ascii "b", ascii "c"],
      (aliasedRecord password value).New unicode := by
    intro password hpassword value hvalue
    have hbuilt : (hysteria password).Built unicode := by
      rcases (by simpa using hpassword : password = ascii "old" ∨ password = ascii "new") with
        rfl | rfl
      · exact hysteria_old_built
      · exact hysteria_new_built
    have haliases : normalizeAliases unicode [value] = .ok [value] := by
      revert value
      decide +kernel
    refine ⟨hysteria password, [relation value], hbuilt, ?_, ?_⟩
    · intro p hp
      rw [List.mem_singleton.mp hp]
      exact relation_built haliases
    · rw [newRecord, hbuilt.shaped.valid]
      rfl
  obtain ⟨inventory, hok, -, -, -, htwice⟩ := deduplicate_canonical_union unicode sum256
    (x := [aliasedRecord (ascii "old") (ascii "b"), aliasedRecord (ascii "old") (ascii "a")])
    (y := [aliasedRecord (ascii "new") (ascii "c")])
    (by
      intro r hr
      rcases (by simpa using hr : r = _ ∨ r = _) with rfl | rfl
      · exact hnew _ (by simp) _ (by simp)
      · exact hnew _ (by simp) _ (by simp))
    (by
      intro r hr
      rw [List.mem_singleton.mp hr]
      exact hnew _ (by simp) _ (by simp))
    (by
      refine collisionFree_revisions.mono ?_
      rintro b ⟨c, ⟨r, hr, rfl⟩, hb⟩
      rcases (by simpa using hr : r = _ ∨ r = _ ∨ r = _) with rfl | rfl | rfl
      · exact ⟨_, .inl rfl, hb⟩
      · exact ⟨_, .inl rfl, hb⟩
      · exact ⟨_, .inr rfl, hb⟩)
  exact ⟨inventory, hok, htwice⟩

end Sample

end Egressfox.Endpoint
