import Egressfox.History.Retention

/-!
# Reading observations back

`Store.Load` of `internal/state/sqlite.go`, and what a sample ID, the primary key of the
table, tells about its observation.

The hashed text determines the observation (`digestText_inj`).  Nothing bounds the length of
an endpoint ID (`ParseID` skips line ends), so its four-byte length does not say where it
ends; but the rest of the text is short, and the total length does.  The media type is not in
the text: it is that of the engine, as only two profiles are supported.
-/

namespace Egressfox.History

open Lib Endpoint Observation Artifact Checkpoint

/-- The rows of the query of `Load`, `ORDER BY completed_at_ns ASC, sample_id ASC`. -/
def selected (table : Table) (fields : KeyFields) (since through : Time) : List Row :=
  sortSlice (fun left right => newer right left) (table.rows.filter fun row =>
    row.fields = fields && unixNano since ≤ row.completedAt && row.completedAt ≤ unixNano through)

/-- The observation of a row, checked against its sample ID. -/
def restore (sum256 : Bytes → Digest) (key : Key) (row : Row) : Except String Observation :=
  match new ⟨key, ofUnixNano row.startedAt, ofUnixNano row.completedAt, row.duration, row.outcome,
    row.statusCode⟩ with
  | .error _ => .error "corrupt_row"
  | .ok value =>
    if row.sampleID ≠ observationDigest sum256 value then .error "corrupt_row" else .ok value

/-- `Store.Load`; the error is the code of the failure. -/
def load (sum256 : Bytes → Digest) (table : Table) (key : Key) (since through : Time) :
    Except String (List Observation) :=
  if since = 0 ∨ through = 0 ∨ through < since then .error "query_window"
  else
    match persistenceFields key with
    | none => .error "key"
    | some fields => (selected table fields since through).mapM (restore sum256 key)

/-- An observation of the program: the references and identifiers of its key come from their
constructors, its outcome is written by name, and its times are in the range of `UnixNano`. -/
structure Recorded (value : Observation) : Prop where
  revised : Revised value.key
  target : safeID value.key.target.id = true
  vantage : safeID value.key.vantage = true
  outcome : ∀ code, value.outcome ≠ .other code
  started_fits : FitsInt64 (value.startedAt - unixEpoch)
  completed_fits : FitsInt64 (value.completedAt - unixEpoch)

variable {sum256 : Bytes → Digest} {retention : Retention} {table : Table} {key : Key}
  {value other : Observation} {calls : List (Observation × Time)}

/-! ## The hashed text -/

theorem revealed_eq {revision : Option Digest} (h : revision.isSome) :
    revealed revision = (revision.getD .zero).val := by
  obtain ⟨digest, rfl⟩ := Option.isSome_iff_exists.mp h
  rfl

theorem length_of_safeID {text : Bytes} (h : safeID text = true) : text.length ≤ 128 := by
  simp only [safeID, safeText, Bool.and_eq_true, decide_eq_true_eq] at h
  exact h.1.2

/-- An `int64` is determined by the bytes of its `uint64`. -/
theorem eq_of_bytes_eq {x y : Int} (hx : FitsInt64 x) (hy : FitsInt64 y)
    (h : bigEndian 8 (uint64 x) = bigEndian 8 (uint64 y)) : x = y := by
  obtain ⟨hx, hx'⟩ := hx
  obtain ⟨hy, hy'⟩ := hy
  have heq : uint64 x = uint64 y :=
    bigEndian_inj (by unfold uint64; omega) (by unfold uint64; omega) h
  unfold uint64 at heq
  omega

theorem outcome_eq_of_byte_eq (h : ∀ code, value.outcome ≠ .other code)
    (h' : ∀ code, other.outcome ≠ .other code) (hbyte : value.outcome.byte = other.outcome.byte) :
    value.outcome = other.outcome := by
  cases hvalue : value.outcome <;> cases hother : other.outcome
  all_goals first
    | rfl
    | exact absurd hvalue (h _)
    | exact absurd hother (h' _)
    | rw [hvalue, hother] at hbyte
      exact absurd hbyte (by decide)

theorem kind_and_profile (value : Observation) :
    value.key.kind = .httpGet ∧ value.key.profile ∈ [mihomo11931, singBox1141] := by
  have hvalid := value.checked.1
  simp only [Key.valid, supportedProfile, Bool.and_eq_true, Bool.or_eq_true, decide_eq_true_eq]
    at hvalid
  exact ⟨hvalid.1.2, by simpa using hvalid.2⟩

/-- **The hashed text determines the observation.** -/
theorem digestText_inj (h : Recorded value) (h' : Recorded other)
    (htext : digestText value = digestText other) : value = other := by
  have hrevealed : ∀ {revision : Option Digest}, revision.isSome →
      (revealed revision).length = 32 := by
    intro revision hsome
    rw [revealed_eq hsome]
    exact (revision.getD .zero).property
  have hprofiles : ∀ p ∈ [mihomo11931, singBox1141], ∀ q ∈ [mihomo11931, singBox1141],
      p.version.length ≤ 32 ∧ p.rendererSchema.length ≤ 32 ∧
        (p.engine.byte = q.engine.byte → p = q) := by decide +kernel
  have hprofile := hprofiles _ (kind_and_profile value).2 _ (kind_and_profile other).2
  have hprofile' := hprofiles _ (kind_and_profile other).2 _ (kind_and_profile value).2
  have htarget := length_of_safeID h.target
  have htarget' := length_of_safeID h'.target
  have hvantage := length_of_safeID h.vantage
  have hvantage' := length_of_safeID h'.vantage
  simp only [digestText, List.append_assoc, List.append_cancel_left_eq] at htext
  -- what follows the endpoint ID is short
  obtain ⟨hid, hrest⟩ := lengthPrefixed_append_inj
    (by simp [lengthPrefixed, hrevealed h.revised.1, hrevealed h.revised.2]; omega)
    (by simp [lengthPrefixed, hrevealed h'.revised.1, hrevealed h'.revised.2]; omega) htext
  obtain ⟨hrevision, hrest⟩ := List.append_inj hrest
    ((hrevealed h.revised.1).trans (hrevealed h'.revised.1).symm)
  obtain ⟨htarget, hrest⟩ := prefixFree_lengthPrefixed (by omega) (by omega) hrest
  obtain ⟨htargetRevision, hrest⟩ := List.append_inj hrest
    ((hrevealed h.revised.2).trans (hrevealed h'.revised.2).symm)
  obtain ⟨hvantage, hrest⟩ := prefixFree_lengthPrefixed (by omega) (by omega) hrest
  obtain ⟨hbytes, hrest⟩ := List.append_inj hrest rfl
  simp only [List.cons.injEq, and_true] at hbytes
  have hprofile := hprofile.2.2 hbytes.2.1
  rw [hprofile, List.append_cancel_left_eq, List.append_cancel_left_eq] at hrest
  obtain ⟨hstarted, hrest⟩ := List.append_inj hrest (by simp)
  obtain ⟨hcompleted, hrest⟩ := List.append_inj hrest (by simp)
  obtain ⟨hduration, hstatus⟩ := List.append_inj hrest (by simp)
  have hkey : value.key = other.key := by
    rw [revealed_eq h.revised.1, revealed_eq h'.revised.1] at hrevision
    rw [revealed_eq h.revised.2, revealed_eq h'.revised.2] at htargetRevision
    rw [← keyFields_eq_iff h.revised h'.revised, keyFields, keyFields, KeyFields.mk.injEq]
    exact ⟨hid, hrevision, htarget, htargetRevision, hvantage,
      (kind_and_profile value).1.trans (kind_and_profile other).1.symm, hprofile⟩
  have htime : ∀ t u : Time, FitsInt64 (t - unixEpoch) → FitsInt64 (u - unixEpoch) →
      bigEndian 8 (uint64 (unixNano t)) = bigEndian 8 (uint64 (unixNano u)) → t = u := by
    intro t u ht hu hbytes
    rw [unixNano, unixNano, int64_eq_self ht, int64_eq_self hu] at hbytes
    exact sub_left_injective (eq_of_bytes_eq ht hu hbytes)
  have hnumber : ∀ value : Observation, FitsInt64 value.duration ∧ FitsInt64 value.statusCode := by
    intro value
    obtain ⟨-, ⟨hlow, hhigh⟩, hlow', hhigh'⟩ := value.checked
    change value.duration ≤ 2 * (60 * 1000000000) at hhigh
    exact ⟨⟨by linarith, by linarith⟩, ⟨by linarith, by linarith⟩⟩
  change (⟨value.toParams, value.accepted⟩ : Observation) = ⟨other.toParams, other.accepted⟩
  rw [Observation.mk.injEq, Params.mk.injEq]
  exact ⟨hkey, htime _ _ h.started_fits h'.started_fits hstarted,
    htime _ _ h.completed_fits h'.completed_fits hcompleted,
    eq_of_bytes_eq (hnumber value).1 (hnumber other).1 hduration,
    outcome_eq_of_byte_eq h.outcome h'.outcome hbytes.2.2,
    eq_of_bytes_eq (hnumber value).2 (hnumber other).2 hstatus⟩

/-! ## Runs -/

/-- A call adds no other row than that of its observation. -/
theorem mem_of_append {now : Time} {table' : Table} {stored : Row} (hvalue : Revised value.key)
    (h : append sum256 retention table value now = .ok table') (hstored : stored ∈ table'.rows) :
    stored ∈ table.rows ∨ stored = row sum256 value := by
  rw [append, persistenceFields_eq hvalue] at h
  split_ifs at h
  obtain rfl := Except.ok.inj h
  -- each of the three deletions filters
  have hinserted : stored ∈ (table.insertOrIgnore (row sum256 value)).rows :=
    (List.mem_filter.mp (List.mem_filter.mp (List.mem_filter.mp hstored).1).1).1
  unfold Table.insertOrIgnore at hinserted
  split_ifs at hinserted
  · exact .inl hinserted
  · simpa using hinserted

/-- The row of an observation is restored under its key. -/
theorem restore_row (h : Recorded value) :
    restore sum256 value.key (row sum256 value) = .ok value := by
  have htime : ∀ t : Time, FitsInt64 (t - unixEpoch) → ofUnixNano (unixNano t) = t := by
    intro t ht
    rw [unixNano, int64_eq_self ht]
    exact add_sub_cancel _ _
  have hnew : new value.toParams = .ok value := by
    unfold new
    split
    · rename_i hfailure
      rw [value.accepted] at hfailure
      cases hfailure
    · rfl
  have hparams : ⟨value.key, ofUnixNano (unixNano value.startedAt),
      ofUnixNano (unixNano value.completedAt), value.duration, value.outcome,
      value.statusCode⟩ = value.toParams := by
    rw [htime _ h.started_fits, htime _ h.completed_fits]
  simp only [restore, row, rowOf, hparams, hnew]
  exact if_neg (not_not.mpr rfl)

section Runs

variable (hcalls : ∀ call ∈ calls, Recorded call.1)
  (hrun : appendAll sum256 retention Table.empty calls = .ok table)
include hcalls hrun

/-- Every row of a run is that of one of its observations. -/
theorem mem_appendAll : ∀ stored ∈ table.rows, ∃ value,
    value ∈ appended calls ∧ Recorded value ∧ row sum256 value = stored := by
  refine foldlM_invariant (P := fun table => ∀ stored ∈ table.rows, ∃ value,
    value ∈ appended calls ∧ Recorded value ∧ row sum256 value = stored) ?_ (by rintro _ ⟨⟩) hrun
  intro call hcall before after hbefore happend stored hstored
  rcases mem_of_append (hcalls call hcall).revised happend hstored with hold | rfl
  · exact hbefore stored hold
  · exact ⟨call.1, List.mem_toFinset.mpr (List.mem_map_of_mem hcall), hcalls call hcall, rfl⟩

/-- The rows that a key selects are restored under it. -/
theorem restores (hkey : Revised key) {rows : List Row}
    (hrows : ∀ stored ∈ rows, stored ∈ table.rows ∧ stored.fields = keyFields key) :
    ∃ values, rows.mapM (restore sum256 key) = .ok values ∧ values.map (row sum256) = rows := by
  induction rows with
  | nil => exact ⟨[], rfl, rfl⟩
  | cons stored rows ih =>
    obtain ⟨⟨hstored, hfields⟩, hrows⟩ := List.forall_mem_cons.mp hrows
    obtain ⟨values, hvalues, rfl⟩ := ih hrows
    obtain ⟨value, -, hvalue, rfl⟩ := mem_appendAll hcalls hrun stored hstored
    obtain rfl : key = value.key := (keyFields_eq_iff hkey hvalue.revised).mp hfields.symm
    refine ⟨value :: values, ?_, rfl⟩
    rw [List.mapM_cons, restore_row hvalue, hvalues]
    rfl

theorem load_eq_ok {since through : Time} (hkey : Revised key)
    (hwindow : ¬(since = 0 ∨ through = 0 ∨ through < since)) :
    ∃ values, load sum256 table key since through = .ok values ∧
      values.map (row sum256) = selected table (keyFields key) since through := by
  rw [load, if_neg hwindow, persistenceFields_eq hkey]
  refine restores hcalls hrun hkey fun stored hstored => ?_
  obtain ⟨hmem, hfields⟩ := List.mem_filter.mp (mem_sortSlice.mp hstored)
  simp only [Bool.and_eq_true, decide_eq_true_eq] at hfields
  exact ⟨hmem, hfields.1.1⟩

theorem load_ne_corrupt (key : Key) (since through : Time) :
    load sum256 table key since through ≠ .error "corrupt_row" := by
  by_cases hwindow : since = 0 ∨ through = 0 ∨ through < since
  · rw [load, if_pos hwindow]
    simp
  · cases hfields : persistenceFields key with
    | none =>
      rw [load, if_neg hwindow, hfields]
      simp
    | some fields =>
      obtain ⟨connection, hconnection, hfields⟩ := Option.bind_eq_some_iff.mp hfields
      obtain ⟨target, htarget, -⟩ := Option.bind_eq_some_iff.mp hfields
      have hkey : Revised key := ⟨by rw [hconnection]; rfl, by rw [htarget]; rfl⟩
      obtain ⟨values, hload, -⟩ := load_eq_ok hcalls hrun hkey hwindow
      rw [hload]
      rintro ⟨⟩

end Runs

/-- **Sample IDs separate observations.**  The hashed texts of two observations agree exactly if
the observations do.  So in every run `INSERT OR IGNORE` ignores only an observation that was
appended before and is still there, and `Load` restores every row that its query selects. -/
theorem sampleIDs_separate (sum256 : Bytes → Digest) (retention : Retention) :
    (∀ value other, Recorded value → Recorded other →
      (digestText value = digestText other ↔ value = other)) ∧
    ∀ calls table, (∀ call ∈ calls, Recorded call.1) →
      appendAll sum256 retention Table.empty calls = .ok table →
      (∀ value, Recorded value →
        Set.InjOn sum256 (digestText '' insert value (appended calls : Set Observation)) →
        (table.insertOrIgnore (row sum256 value)).rows = table.rows ++ [row sum256 value] ∨
          row sum256 value ∈ table.rows ∧ value ∈ appended calls) ∧
      ∀ key since through, load sum256 table key since through ≠ .error "corrupt_row" ∧
        (Revised key → ¬(since = 0 ∨ through = 0 ∨ through < since) →
          ∃ values, load sum256 table key since through = .ok values ∧
            values.map (row sum256) = selected table (keyFields key) since through) := by
  refine ⟨fun value other h h' => ⟨digestText_inj h h', congrArg digestText⟩, ?_⟩
  intro calls table hcalls hrun
  refine ⟨fun value hvalue hfree => ?_, fun key since through =>
    ⟨load_ne_corrupt hcalls hrun key since through, load_eq_ok hcalls hrun⟩⟩
  by_cases hid : (row sum256 value).sampleID ∈ table.rows.map Row.sampleID
  · right
    obtain ⟨stored, hstored, hsame⟩ := List.mem_map.mp hid
    obtain ⟨other, hother, hrecorded, rfl⟩ := mem_appendAll hcalls hrun stored hstored
    have htext : digestText other = digestText value :=
      hfree ⟨other, .inr hother, rfl⟩ ⟨value, .inl rfl, rfl⟩ hsame
    obtain rfl := digestText_inj hrecorded hvalue htext
    exact ⟨hstored, hother⟩
  · left
    rw [Table.insertOrIgnore, dif_neg hid]

namespace Sample

/-- An observation is stored, loaded, and told apart from another one. -/
theorem sampleIDs_separate_recent :
    ∃ table, appendAll tail256 Sample.retention Table.empty [(former, former.completedAt)] =
        .ok table ∧
      (table.insertOrIgnore (row tail256 recent)).rows = table.rows ++ [row tail256 recent] ∧
      ∃ values, load tail256 table Sample.key former.startedAt former.completedAt = .ok values ∧
        values.map (row tail256) =
          selected table (keyFields Sample.key) former.startedAt former.completedAt := by
  have hrecorded : Recorded former ∧ Recorded recent :=
    ⟨⟨⟨rfl, rfl⟩, by decide +kernel, by decide +kernel, by rintro code ⟨⟩,
      ⟨by decide, by decide⟩, ⟨by decide, by decide⟩⟩,
    ⟨⟨rfl, rfl⟩, by decide +kernel, by decide +kernel, by rintro code ⟨⟩,
      ⟨by decide, by decide⟩, ⟨by decide, by decide⟩⟩⟩
  have hcalls : ∀ call ∈ [(former, former.completedAt)], Recorded call.1 := by
    simpa using hrecorded.1
  obtain ⟨table, hrun⟩ := exists_of_isOk (x := appendAll tail256 Sample.retention
    Table.empty [(former, former.completedAt)]) (by decide +kernel)
  obtain ⟨hinserted, hloaded⟩ := (sampleIDs_separate _ _).2 _ table hcalls hrun
  refine ⟨table, hrun, ?_, (hloaded _ _ _).2 ⟨rfl, rfl⟩ (by decide +kernel)⟩
  refine (hinserted _ hrecorded.2 ?_).resolve_right fun h => ?_
  · have hne : tail256 (digestText recent) ≠ tail256 (digestText former) := by decide +kernel
    simp [appended, Set.image_insert_eq, Set.InjOn, hne, hne.symm]
  · have hmem : recent ∈ appended [(former, former.completedAt)] := h.2
    revert hmem
    decide +kernel

end Sample

end Egressfox.History
