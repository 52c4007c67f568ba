import Egressfox.Lib.Greatest
import Egressfox.Observation.New

/-!
# Retention of observations

`Store.Append` and `Store.prune` of `internal/state/sqlite.go`: each call inserts one
observation and then deletes by age, by the number under the inserted key and by the number
of rows.  The table carries its primary key, so a table with two rows of one sample ID
cannot be built.

A call is one transaction.  A call that fails in the database leaves the table as it was and
is not among the calls here; the deletion of old checkpoints in the same transaction does not
touch the observations and is left out.

What a run leaves is compared with `oneShot`, which prunes once everything that was ever
appended (`appendAll_eq`).  The store orders and ages rows by `UnixNano`, so the comparison
is with the real times only as far as these fit in an `int64`.
-/

namespace Egressfox.History

open Lib Endpoint Observation Artifact Checkpoint

/-! ## The table -/

/-- `Retention`; `Open` refuses a value that is not `valid`. -/
structure Retention where
  maxAge : Duration
  maxPerKey : Int
  maxRows : Int
  valid : Duration.minute ≤ maxAge ∧ maxAge ≤ 365 * 24 * Duration.hour ∧
    1 ≤ maxPerKey ∧ maxPerKey ≤ 10000 ∧ 1 ≤ maxRows ∧ maxRows ≤ 1000000

/-- `keyFields`. -/
structure KeyFields where
  endpointID : Bytes
  connectionRevision : Bytes
  targetID : Bytes
  targetRevision : Bytes
  vantageID : Bytes
  kind : Kind
  profile : Profile
deriving DecidableEq, Repr

/-- `persistenceFields`; a key with an absent revision has none. -/
def persistenceFields (key : Key) : Option KeyFields := do
  let connectionRevision ← key.connection.revision
  let targetRevision ← key.target.revision
  some ⟨key.connection.id.string, connectionRevision.val, key.target.id, targetRevision.val,
    key.vantage, key.kind, key.profile⟩

/-- A row of `observations`. -/
structure Row where
  sampleID : Digest
  fields : KeyFields
  startedAt : Int
  completedAt : Int
  duration : Int
  outcome : Outcome
  statusCode : Int
deriving DecidableEq, Repr

/-- The table `observations`. -/
structure Table where
  rows : List Row
  primaryKey : (rows.map Row.sampleID).Nodup

namespace Table

def empty : Table := ⟨[], List.nodup_nil⟩

/-- `INSERT OR IGNORE`. -/
def insertOrIgnore (table : Table) (row : Row) : Table :=
  if h : row.sampleID ∈ table.rows.map Row.sampleID then table
  else ⟨table.rows ++ [row], by
    rw [List.map_append]
    exact table.primaryKey.append (List.nodup_singleton _) (by simpa using h)⟩

/-- `DELETE FROM observations WHERE`. -/
def delete (table : Table) (doomed : Row → Bool) : Table :=
  ⟨table.rows.filter fun row => !doomed row,
    table.primaryKey.sublist (List.filter_sublist.map _)⟩

end Table

/-- `ORDER BY completed_at_ns DESC, sample_id DESC`: `left` comes first. -/
def newer (left right : Row) : Bool :=
  right.completedAt < left.completedAt ||
    right.completedAt = left.completedAt && right.sampleID.val < left.sampleID.val

/-- The rows of `SELECT … ORDER BY … LIMIT -1 OFFSET limit`. -/
def beyond (limit : Int) (rows : List Row) : List Row := (sortSlice newer rows).drop limit.toNat

/-- `DELETE … WHERE sample_id IN (SELECT … WHERE … LIMIT -1 OFFSET limit)`. -/
def Table.deleteBeyond (table : Table) (limit : Int) (chosen : Row → Bool) : Table :=
  table.delete fun row =>
    (beyond limit (table.rows.filter chosen)).any fun other => other.sampleID = row.sampleID

/-! ## Appending -/

/-- The row that `Append` inserts. -/
def rowOf (sum256 : Bytes → Digest) (value : Observation) (fields : KeyFields) : Row where
  sampleID := observationDigest sum256 value
  fields := fields
  startedAt := unixNano value.startedAt
  completedAt := unixNano value.completedAt
  duration := value.duration
  outcome := value.outcome
  statusCode := value.statusCode

/-- `Store.prune`. -/
def prune (retention : Retention) (table : Table) (fields : KeyFields) (now : Time) : Table :=
  let cutoff := unixNano (now - retention.maxAge)
  let table := table.delete fun row => row.completedAt < cutoff
  let table := table.deleteBeyond retention.maxPerKey fun row => row.fields = fields
  table.deleteBeyond retention.maxRows fun _ => true

/-- `Store.Append`; the error is the code of the failure. -/
def append (sum256 : Bytes → Digest) (retention : Retention) (table : Table) (value : Observation)
    (now : Time) : Except String Table :=
  if now = 0 then .error "evaluation_time"
  else
    match persistenceFields value.key with
    | none => .error "key"
    | some fields =>
      .ok (prune retention (table.insertOrIgnore (rowOf sum256 value fields)) fields now)

/-- A sequence of calls. -/
def appendAll (sum256 : Bytes → Digest) (retention : Retention) (table : Table)
    (calls : List (Observation × Time)) : Except String Table :=
  calls.foldlM (fun table call => append sum256 retention table call.1 call.2) table

/-! ## The order of the rows -/

/-- Rows are ordered by completion time, then by sample ID. -/
def Row.rank (row : Row) : Int ×ₗ Bytes := toLex (row.completedAt, row.sampleID.val)

theorem newer_iff (left right : Row) : newer left right = true ↔
    OrderDual.toDual left.rank < OrderDual.toDual right.rank := by
  rw [OrderDual.toDual_lt_toDual, Row.rank, Row.rank, Prod.Lex.toLex_lt_toLex]
  simp [newer]

theorem completedAt_le_of_rank_lt (left right : Row) (h : left.rank < right.rank) :
    left.completedAt ≤ right.completedAt := by
  rcases Prod.Lex.toLex_lt_toLex.mp h with h | ⟨h, -⟩
  · exact h.le
  · exact h.le

theorem Row.sampleID_eq_of_rank_eq {left right : Row} (h : left.rank = right.rank) :
    left.sampleID = right.sampleID := by
  have hpair := toLex.injective h
  exact Subtype.ext (Prod.ext_iff.mp hpair).2

namespace Table

variable (table : Table)

/-- The primary key tells the rows apart. -/
theorem eq_of_sampleID_eq {left right : Row} (hleft : left ∈ table.rows)
    (hright : right ∈ table.rows) (h : left.sampleID = right.sampleID) : left = right :=
  List.inj_on_of_nodup_map table.primaryKey hleft hright h

theorem rows_nodup : table.rows.Nodup := table.primaryKey.of_map

@[simp] theorem rows_delete (doomed : Row → Bool) :
    (table.delete doomed).rows = table.rows.filter fun row => !doomed row := rfl

/-- Deleting beyond a limit keeps the newest of the chosen rows and all the others. -/
theorem mem_rows_deleteBeyond (limit : Int) (chosen : Row → Bool) (row : Row) :
    row ∈ (table.deleteBeyond limit chosen).rows ↔ row ∈ table.rows ∧
      (chosen row = true →
        row ∈ greatest Row.rank limit.toNat (table.rows.filter chosen).toFinset) := by
  have hnodup : ((table.rows.filter chosen).map (OrderDual.toDual ∘ Row.rank)).Nodup := by
    refine (table.rows_nodup.filter _).map_on fun left hleft right hright h => ?_
    exact table.eq_of_sampleID_eq (List.mem_filter.mp hleft).1 (List.mem_filter.mp hright).1
      (Row.sampleID_eq_of_rank_eq (OrderDual.toDual.injective h))
  have hsorted := sortSlice_pairwise_lt newer_iff hnodup
  have hset : (sortSlice newer (table.rows.filter chosen)).toFinset =
      (table.rows.filter chosen).toFinset := by
    ext other
    rw [List.mem_toFinset, List.mem_toFinset, mem_sortSlice]
  have hcut : row ∈ (sortSlice newer (table.rows.filter chosen)).take limit.toNat ↔
      row ∈ greatest Row.rank limit.toNat (table.rows.filter chosen).toFinset := by
    rw [← hset]
    exact mem_take_iff_mem_greatest (hsorted.imp fun h => OrderDual.toDual_lt_toDual.mp h) _ row
  have hsplit : row ∈ table.rows ∧ chosen row = true ↔
      row ∈ (sortSlice newer (table.rows.filter chosen)).take limit.toNat ∨
        row ∈ beyond limit (table.rows.filter chosen) := by
    rw [beyond, ← List.mem_append, List.take_append_drop, mem_sortSlice, List.mem_filter]
  have hdisjoint : row ∈ (sortSlice newer (table.rows.filter chosen)).take limit.toNat →
      row ∉ beyond limit (table.rows.filter chosen) :=
    fun htake hdrop => List.disjoint_take_drop
      ((sortSlice_perm newer _).nodup_iff.mpr (table.rows_nodup.filter _)) le_rfl htake hdrop
  have hdoomed : row ∈ table.rows →
      (((beyond limit (table.rows.filter chosen)).any fun other =>
        other.sampleID = row.sampleID) = true ↔ row ∈ beyond limit (table.rows.filter chosen)) := by
    intro hrow
    rw [List.any_eq_true]
    constructor
    · rintro ⟨other, hother, hid⟩
      have hmem : other ∈ table.rows :=
        (List.mem_filter.mp (mem_sortSlice.mp (List.mem_of_mem_drop hother))).1
      rwa [← table.eq_of_sampleID_eq hmem hrow (by simpa using hid)]
    · intro hmem
      exact ⟨row, hmem, by simp⟩
  rw [deleteBeyond, rows_delete, List.mem_filter, ← hcut]
  refine and_congr_right fun hrow => ?_
  rw [Bool.not_eq_true', ← Bool.not_eq_true, hdoomed hrow]
  constructor
  · intro hkept hchosen
    exact (hsplit.mp ⟨hrow, hchosen⟩).resolve_right hkept
  · intro hkept hdrop
    have hchosen := (hsplit.mpr (.inr hdrop)).2
    exact hdisjoint (hkept hchosen) hdrop

/-- Deleting what is old. -/
theorem toFinset_rows_delete_old (cutoff : Int) :
    (table.delete fun row => row.completedAt < cutoff).rows.toFinset =
      table.rows.toFinset.filter fun row => cutoff ≤ row.completedAt := by
  rw [rows_delete, List.toFinset_filter]
  refine Finset.filter_congr fun row _ => ?_
  simp

/-- Inserting adds the row, as long as its sample ID is not that of another one. -/
theorem toFinset_rows_insertOrIgnore {row : Row}
    (hid : ∀ other ∈ table.rows, other.sampleID = row.sampleID → other = row) :
    (table.insertOrIgnore row).rows.toFinset = insert row table.rows.toFinset := by
  unfold insertOrIgnore
  split_ifs with h
  · obtain ⟨other, hother, heq⟩ := List.mem_map.mp h
    rw [Finset.insert_eq_of_mem]
    rw [List.mem_toFinset, ← hid other hother heq]
    exact hother
  · ext other
    simp

end Table

/-- What is retained of a set of rows. -/
def retainedRows (retention : Retention) (cutoff : Int) (rows : Finset Row) : Finset Row :=
  retained Row.rank Row.fields Row.completedAt retention.maxPerKey.toNat retention.maxRows.toNat
    cutoff rows

variable {table : Table} {value : Observation} {call : Observation × Time}
  {calls : List (Observation × Time)}

/-- Pruning retains what it should, although it looks at one key only: under the other keys
there is nothing to delete. -/
theorem toFinset_rows_prune (retention : Retention) {fields : KeyFields}
    (hothers : ∀ other, other ≠ fields →
      (table.rows.toFinset.filter fun row => row.fields = other).card ≤ retention.maxPerKey.toNat)
    (now : Time) : (prune retention table fields now).rows.toFinset =
      retainedRows retention (unixNano (now - retention.maxAge)) table.rows.toFinset := by
  have hprune : prune retention table fields now =
      ((table.delete fun row => row.completedAt < unixNano (now - retention.maxAge)).deleteBeyond
        retention.maxPerKey fun row => row.fields = fields).deleteBeyond retention.maxRows
          fun _ => true := rfl
  unfold retainedRows retained capped
  rw [hprune, ← Table.toFinset_rows_delete_old]
  generalize haged : (table.delete fun row =>
    row.completedAt < unixNano (now - retention.maxAge)) = aged
  have hsub : aged.rows.toFinset ⊆ table.rows.toFinset := by
    rw [← haged, Table.toFinset_rows_delete_old]
    exact Finset.filter_subset _ _
  have hkeyed : (aged.deleteBeyond retention.maxPerKey fun row => row.fields = fields).rows.toFinset
      = greatestPerKey Row.rank Row.fields retention.maxPerKey.toNat aged.rows.toFinset := by
    rw [greatestPerKey_eq_of_le retention.maxPerKey.toNat fun other hother =>
      (Finset.card_le_card (Finset.filter_subset_filter _ hsub)).trans (hothers other hother)]
    ext row
    rw [List.mem_toFinset, Table.mem_rows_deleteBeyond, Finset.mem_filter, List.mem_toFinset,
      List.toFinset_filter]
    simp
  ext row
  rw [List.mem_toFinset, Table.mem_rows_deleteBeyond, ← hkeyed, mem_greatest, List.mem_toFinset]
  simp

/-! ## Runs -/

/-- The columns of a key whose revisions are present. -/
def keyFields (key : Key) : KeyFields :=
  ⟨key.connection.id.string, (key.connection.revision.getD .zero).val, key.target.id,
    (key.target.revision.getD .zero).val, key.vantage, key.kind, key.profile⟩

/-- Both references of the key carry a revision, as every reference made by its constructor
does. -/
def Revised (key : Key) : Prop := key.connection.revision.isSome ∧ key.target.revision.isSome

theorem persistenceFields_eq {key : Key} (h : Revised key) :
    persistenceFields key = some (keyFields key) := by
  obtain ⟨connection, hconnection⟩ := Option.isSome_iff_exists.mp h.1
  obtain ⟨target, htarget⟩ := Option.isSome_iff_exists.mp h.2
  simp [persistenceFields, keyFields, hconnection, htarget]

theorem getD_zero_inj {revision other : Option Digest} (h : revision.isSome) (h' : other.isSome)
    (heq : (revision.getD .zero).val = (other.getD .zero).val) : revision = other := by
  obtain ⟨digest, rfl⟩ := Option.isSome_iff_exists.mp h
  obtain ⟨digest', rfl⟩ := Option.isSome_iff_exists.mp h'
  exact congrArg some (Subtype.ext heq)

/-- The columns of a key under which there can be an observation belong to no other key. -/
theorem keyFields_eq_iff {key : Key} (hkey : Revised key) (hvalue : Revised value.key) :
    keyFields key = keyFields value.key ↔ key = value.key := by
  refine ⟨fun h => ?_, fun h => by rw [h]⟩
  have hid := value.id_string_ne
  generalize value.key = other at *
  obtain ⟨⟨id, revision⟩, ⟨target, targetRevision⟩, vantage, kind, profile⟩ := key
  obtain ⟨⟨id', revision'⟩, ⟨target', targetRevision'⟩, vantage', kind', profile'⟩ := other
  simp only [keyFields, KeyFields.mk.injEq] at h
  obtain ⟨hstring, hrevision, rfl, htarget, rfl, rfl, rfl⟩ := h
  obtain rfl : id = id' := ID.eq_of_string_eq hid hstring
  obtain rfl : revision = revision' := getD_zero_inj hkey.1 hvalue.1 hrevision
  obtain rfl : targetRevision = targetRevision' := getD_zero_inj hkey.2 hvalue.2 htarget
  rfl

section Runs

variable (sum256 : Bytes → Digest) (retention : Retention)

/-- The row of an observation. -/
def row (value : Observation) : Row := rowOf sum256 value (keyFields value.key)

/-- What a call asks of its arguments: references with a revision, and times whose
nanoseconds fit in an `int64`. -/
structure Appendable (call : Observation × Time) : Prop where
  revised : Revised call.1.key
  completed_fits : rounded call.1.completedAt = call.1.completedAt
  cutoff_fits : rounded (call.2 - retention.maxAge) = call.2 - retention.maxAge

/-- The observations of a sequence of calls. -/
def appended (calls : List (Observation × Time)) : Finset Observation :=
  (calls.map Prod.fst).toFinset

/-- Sequences of calls at times that do not go back, of observations told apart by their
sample IDs. -/
structure Admissible (calls : List (Observation × Time)) : Prop where
  appendable : ∀ call ∈ calls, Appendable retention call
  ordered : calls.Pairwise fun earlier later => earlier.2 ≤ later.2
  sampleID_injOn : Set.InjOn (observationDigest sum256) (appended calls)

/-- Observations are ordered by completion time, then by sample ID. -/
def rank (value : Observation) : Time ×ₗ Bytes :=
  toLex (value.completedAt, (observationDigest sum256 value).val)

/-- Pruning once: of `values`, drop those completed before `now - MaxAge`, keep per evidence
key the `MaxPerKey` greatest, and of these the `MaxRows` greatest. -/
def oneShot (now : Time) (values : Finset Observation) : Finset Observation :=
  retained (rank sum256) (fun value => value.key) (fun value => value.completedAt)
    retention.maxPerKey.toNat retention.maxRows.toNat (now - retention.maxAge) values

variable {sum256 retention}

theorem unixNano_eq {time : Time} (h : rounded time = time) : unixNano time = time - unixEpoch :=
  eq_sub_of_add_eq' h

theorem now_ne_zero (h : Appendable retention call) : call.2 ≠ 0 := by
  intro hzero
  have hfits := unixNano_eq h.cutoff_fits
  have hlow : -(2 ^ 64 / 2 : Int) ≤ unixNano (call.2 - retention.maxAge) :=
    Int.le_bmod (by norm_num)
  have hage := retention.valid.1
  rw [hfits, hzero] at hlow
  change (60 * 1000000000 : Int) ≤ retention.maxAge at hage
  change -(2 ^ 64 / 2 : Int) ≤ (0 : Int) - retention.maxAge - 62135596800 * 1000000000 at hlow
  omega

theorem append_eq (h : Appendable retention call) (table : Table) :
    append sum256 retention table call.1 call.2 = .ok (prune retention
      (table.insertOrIgnore (row sum256 call.1)) (keyFields call.1.key) call.2) := by
  rw [append, if_neg (now_ne_zero h), persistenceFields_eq h.revised]
  rfl

/-- One call, on the rows. -/
theorem toFinset_rows_append (h : Appendable retention call) {rows : Finset Row} {cutoff : Int}
    (hstored : table.rows.toFinset = retainedRows retention cutoff rows)
    (hcutoff : cutoff ≤ unixNano (call.2 - retention.maxAge))
    (hid : Set.InjOn Row.sampleID (insert (row sum256 call.1) rows : Finset Row)) :
    ∃ table', append sum256 retention table call.1 call.2 = .ok table' ∧
      table'.rows.toFinset = retainedRows retention (unixNano (call.2 - retention.maxAge))
        (insert (row sum256 call.1) rows) := by
  have hrank : Set.InjOn Row.rank (insert (row sum256 call.1) rows : Finset Row) :=
    fun left hleft right hright heq => hid hleft hright (Row.sampleID_eq_of_rank_eq heq)
  have hsub : table.rows.toFinset ⊆ rows := by
    rw [hstored]
    exact (capped_subset _ _ _).trans (Finset.filter_subset _ _)
  have hinserted : (table.insertOrIgnore (row sum256 call.1)).rows.toFinset =
      insert (row sum256 call.1) table.rows.toFinset := by
    refine table.toFinset_rows_insertOrIgnore fun other hother heq => ?_
    refine hid ?_ (by simp) heq
    exact Finset.mem_insert_of_mem (hsub (List.mem_toFinset.mpr hother))
  refine ⟨_, append_eq h table, ?_⟩
  rw [toFinset_rows_prune, hinserted, hstored]
  · exact retained_insert_retained completedAt_le_of_rank_lt hcutoff hrank
  · -- the new row is under its own key, so the other keys are as full as they were
    intro other hother
    rw [hinserted, Finset.filter_insert, if_neg fun heq => hother heq.symm, hstored]
    refine card_filter_capped_le (hrank.mono ?_) other
    exact (Finset.filter_subset _ _).trans (Finset.subset_insert _ _)

/-- **A run retains what one pruning of everything appended retains.**  The induction is on
the calls; `rows` are the rows appended before, and `cutoff` is the last cutoff before. -/
theorem toFinset_rows_appendAll {last : Observation × Time}
    (happendable : ∀ call ∈ calls ++ [last], Appendable retention call)
    (hordered : (calls ++ [last]).Pairwise fun earlier later => earlier.2 ≤ later.2)
    {rows : Finset Row} {cutoff : Int}
    (hstored : table.rows.toFinset = retainedRows retention cutoff rows)
    (hcutoff : ∀ call ∈ calls ++ [last], cutoff ≤ unixNano (call.2 - retention.maxAge))
    (hid : Set.InjOn Row.sampleID
      (rows ∪ (appended (calls ++ [last])).image (row sum256) : Finset Row)) :
    ∃ table', appendAll sum256 retention table (calls ++ [last]) = .ok table' ∧
      table'.rows.toFinset = retainedRows retention (unixNano (last.2 - retention.maxAge))
        (rows ∪ (appended (calls ++ [last])).image (row sum256)) := by
  induction calls generalizing table rows cutoff with
  | nil =>
    have hset : rows ∪ (appended [last]).image (row sum256) = insert (row sum256 last.1) rows := by
      rw [Finset.insert_eq, Finset.union_comm]
      rfl
    rw [List.nil_append, hset] at hid ⊢
    obtain ⟨table', happend, hrows⟩ :=
      toFinset_rows_append (happendable last (by simp)) hstored (hcutoff last (by simp)) hid
    exact ⟨table', by simp [appendAll, happend], hrows⟩
  | cons call calls ih =>
    obtain ⟨hnext, hordered⟩ := List.pairwise_cons.mp hordered
    have hset : rows ∪ (appended (call :: (calls ++ [last]))).image (row sum256) =
        insert (row sum256 call.1) rows ∪ (appended (calls ++ [last])).image (row sum256) := by
      simp only [appended, List.map_cons, List.toFinset_cons, Finset.image_insert,
        Finset.union_insert, Finset.insert_union]
    rw [List.cons_append, hset] at hid ⊢
    obtain ⟨between, happend, hbetween⟩ :=
      toFinset_rows_append (happendable call (by simp)) hstored (hcutoff call (by simp))
        (hid.mono (Finset.coe_subset.mpr Finset.subset_union_left))
    have hlater : ∀ later ∈ calls ++ [last],
        unixNano (call.2 - retention.maxAge) ≤ unixNano (later.2 - retention.maxAge) := by
      intro later hmem
      rw [unixNano_eq (happendable call (by simp)).cutoff_fits,
        unixNano_eq (happendable later (List.mem_cons_of_mem _ hmem)).cutoff_fits]
      exact sub_le_sub_right (sub_le_sub_right (hnext later hmem) _) _
    obtain ⟨table', hall, hrows⟩ := ih (fun later hmem =>
      happendable later (List.mem_cons_of_mem _ hmem)) hordered hbetween hlater hid
    refine ⟨table', ?_, hrows⟩
    rw [appendAll, List.foldlM_cons, happend]
    exact hall

/-! ## Rows and observations -/

theorem row_sampleID_injOn (h : Admissible sum256 retention calls) :
    Set.InjOn Row.sampleID ((appended calls).image (row sum256) : Finset Row) := by
  intro left hleft right hright heq
  obtain ⟨value, hvalue, rfl⟩ := Finset.mem_image.mp hleft
  obtain ⟨other, hother, rfl⟩ := Finset.mem_image.mp hright
  rw [h.sampleID_injOn hvalue hother heq]

/-- The rows retained are those of the observations retained. -/
theorem retainedRows_image (h : Admissible sum256 retention calls) (hcall : call ∈ calls) :
    retainedRows retention (unixNano (call.2 - retention.maxAge))
        ((appended calls).image (row sum256)) =
      (oneShot sum256 retention call.2 (appended calls)).image (row sum256) := by
  have hmem : ∀ value ∈ appended calls, ∃ call ∈ calls, call.1 = value :=
    fun value hvalue => List.mem_map.mp (List.mem_toFinset.mp hvalue)
  have hrevised : ∀ value ∈ appended calls, Revised value.key := by
    intro value hvalue
    obtain ⟨call, hcall, rfl⟩ := hmem value hvalue
    exact (h.appendable call hcall).revised
  have htime : ∀ value ∈ appended calls,
      (row sum256 value).completedAt = value.completedAt - unixEpoch := by
    intro value hvalue
    obtain ⟨call, hcall, rfl⟩ := hmem value hvalue
    exact unixNano_eq (h.appendable call hcall).completed_fits
  refine retained_image ?_ ?_ ?_ ?_
  · intro value hvalue other hother heq
    exact h.sampleID_injOn hvalue hother (congrArg Row.sampleID heq)
  · intro value hvalue other hother
    rw [Row.rank, Row.rank, htime value hvalue, htime other hother, rank, rank,
      Prod.Lex.toLex_lt_toLex, Prod.Lex.toLex_lt_toLex]
    exact or_congr (sub_lt_sub_iff_right _) (and_congr sub_left_inj Iff.rfl)
  · intro value hvalue other hother
    exact keyFields_eq_iff (hrevised value hvalue) (hrevised other hother)
  · intro value hvalue
    rw [unixNano_eq (h.appendable call hcall).cutoff_fits, htime value hvalue]
    exact sub_le_sub_iff_right _

/-- **The store after a run.** -/
theorem appendAll_eq {last : Observation × Time}
    (h : Admissible sum256 retention (calls ++ [last])) :
    ∃ table, appendAll sum256 retention Table.empty (calls ++ [last]) = .ok table ∧
      table.rows.toFinset =
        (oneShot sum256 retention last.2 (appended (calls ++ [last]))).image (row sum256) := by
  -- before the first call nothing is stored, whatever the cutoff
  obtain ⟨cutoff, hcutoff⟩ : ∃ cutoff, ∀ call ∈ calls ++ [last],
      cutoff ≤ unixNano (call.2 - retention.maxAge) :=
    ⟨-(2 ^ 64 / 2 : Int), fun call _ => Int.le_bmod (by norm_num)⟩
  have hempty : Table.empty.rows.toFinset = retainedRows retention cutoff ∅ := rfl
  obtain ⟨table, hrun, hrows⟩ := toFinset_rows_appendAll h.appendable h.ordered hempty hcutoff
    (by rw [Finset.empty_union]; exact row_sampleID_injOn h)
  refine ⟨table, hrun, ?_⟩
  rw [hrows, Finset.empty_union, retainedRows_image h (by simp)]

/-- Appending once more changes nothing about which observations there are. -/
theorem appended_concat (h : value ∈ appended calls) (now : Time) :
    appended (calls ++ [(value, now)]) = appended calls := by
  have hmem : value ∈ (calls.map Prod.fst).toFinset := h
  ext other
  simp only [appended, List.map_append, List.toFinset_append, Finset.mem_union]
  refine ⟨fun hother => hother.elim id fun heq => ?_, .inl⟩
  obtain rfl : other = value := by simpa using heq
  exact hmem

theorem Admissible.concat {again : Observation} {now : Time}
    (h : Admissible sum256 retention (calls ++ [(value, now)]))
    (hagain : again ∈ appended (calls ++ [(value, now)])) :
    Admissible sum256 retention (calls ++ [(value, now)] ++ [(again, now)]) where
  appendable := by
    obtain ⟨⟨again, time⟩, hcall, rfl⟩ := List.mem_map.mp (List.mem_toFinset.mp hagain)
    intro call hmem
    rcases List.mem_append.mp hmem with hmem | hmem
    · exact h.appendable call hmem
    · obtain rfl := List.mem_singleton.mp hmem
      exact ⟨(h.appendable _ hcall).revised, (h.appendable _ hcall).completed_fits,
        (h.appendable (value, now) (by simp)).cutoff_fits⟩
  ordered := by
    refine List.pairwise_append.mpr ⟨h.ordered, List.pairwise_singleton _ _, ?_⟩
    intro call hcall last hlast
    obtain rfl := List.mem_singleton.mp hlast
    -- the last call so far is at the same time
    rcases List.mem_append.mp hcall with hcall | hcall
    · exact (List.pairwise_append.mp h.ordered).2.2 call hcall (value, now) (by simp)
    · obtain rfl := List.mem_singleton.mp hcall
      exact le_rfl
  sampleID_injOn := by
    rw [appended_concat hagain]
    exact h.sampleID_injOn

/-- **Retention is exact.**  A run stores the rows of the observations that one pruning of
everything appended keeps.  So the order of the calls does not matter, and neither does
appending once more what was appended before. -/
theorem retention_exact {calls : List (Observation × Time)} {value : Observation} {now : Time}
    (h : Admissible sum256 retention (calls ++ [(value, now)])) :
    ∃ table, appendAll sum256 retention Table.empty (calls ++ [(value, now)]) = .ok table ∧
      table.rows.toFinset =
        (oneShot sum256 retention now (appended (calls ++ [(value, now)]))).image (row sum256) ∧
      (∀ calls' value', Admissible sum256 retention (calls' ++ [(value', now)]) →
        appended (calls' ++ [(value', now)]) = appended (calls ++ [(value, now)]) →
        ∃ table', appendAll sum256 retention Table.empty (calls' ++ [(value', now)]) = .ok table' ∧
          table'.rows.toFinset = table.rows.toFinset) ∧
      ∀ again ∈ appended (calls ++ [(value, now)]),
        ∃ table', append sum256 retention table again now = .ok table' ∧
          table'.rows.toFinset = table.rows.toFinset := by
  obtain ⟨table, hrun, hrows⟩ := appendAll_eq h
  refine ⟨table, hrun, hrows, ?_, ?_⟩
  · intro calls' value' h' hsame
    obtain ⟨table', hrun', hrows'⟩ := appendAll_eq h'
    exact ⟨table', hrun', by rw [hrows', hrows, hsame]⟩
  · intro again hagain
    obtain ⟨table', hrun', hrows'⟩ := appendAll_eq (h.concat hagain)
    refine ⟨table', ?_, ?_⟩
    · rw [appendAll, List.foldlM_append] at hrun'
      obtain ⟨before, hbefore, hlast⟩ := bind_eq_ok.mp hrun'
      obtain rfl : table = before := Except.ok.inj (hrun.symm.trans hbefore)
      simpa using hlast
    · rw [hrows', hrows, appended_concat hagain]

end Runs

namespace Sample

/-- Stands for SHA-256: the last 32 bytes of a text. -/
def tail256 (text : Bytes) : Digest :=
  ⟨(text.reverse ++ List.replicate 32 0).take 32, by simp⟩

def retention : Retention := ⟨30 * 24 * Duration.hour, 512, 100000, by decide⟩

def key : Key :=
  ⟨⟨⟨ascii "ep2_sample"⟩, some .zero⟩, ⟨ascii "target", some .zero⟩, ascii "vantage", .httpGet,
    mihomo11931⟩

def params (completedAt : Time) : Params :=
  ⟨key, completedAt, completedAt, Duration.second, .success, 204⟩

/-- An observation of the year 2024. -/
def recent : Observation := ⟨params (unixEpoch + 1704067200 * Duration.second), by decide +kernel⟩

/-- An observation that was 31 days before. -/
def former : Observation :=
  ⟨params (recent.completedAt - 31 * 24 * Duration.hour), by decide +kernel⟩

/-- An observation of the year 2262 whose nanoseconds do not fit in an `int64`. -/
def late : Observation := ⟨params (unixEpoch + 2 ^ 63), by decide +kernel⟩

/-- Of two observations the first is too old in the end, and dropped. -/
theorem retention_exact_recent :
    ∃ table, appendAll tail256 retention Table.empty
        ([(former, former.completedAt)] ++ [(recent, recent.completedAt)]) = .ok table ∧
      table.rows.toFinset = {row tail256 recent} := by
  have h : Admissible tail256 retention
      ([(former, former.completedAt)] ++ [(recent, recent.completedAt)]) := by
    refine ⟨?_, by decide +kernel, ?_⟩
    · intro call hcall
      obtain rfl | rfl : call = (former, former.completedAt) ∨
          call = (recent, recent.completedAt) := by simpa using hcall
      · exact ⟨⟨rfl, rfl⟩, by decide +kernel, by decide +kernel⟩
      · exact ⟨⟨rfl, rfl⟩, by decide +kernel, by decide +kernel⟩
    · intro left hleft right hright
      exact (by decide +kernel : ∀ left ∈ appended _, ∀ right ∈ appended _,
        observationDigest tail256 left = observationDigest tail256 right → left = right)
        left hleft right hright
  obtain ⟨table, hrun, hrows, -⟩ := retention_exact h
  have honce : oneShot tail256 retention recent.completedAt
      (appended ([(former, former.completedAt)] ++ [(recent, recent.completedAt)])) = {recent} := by
    decide +kernel
  refine ⟨table, hrun, ?_⟩
  rw [hrows, honce, Finset.image_singleton]

/-- An observation completed now is deleted by its own call: its time has become negative. -/
theorem late_not_retained :
    oneShot tail256 retention late.completedAt (appended [(late, late.completedAt)]) = {late} ∧
      (appendAll tail256 retention Table.empty [(late, late.completedAt)]).map Table.rows =
        .ok [] := by
  decide +kernel

end Sample

end Egressfox.History
