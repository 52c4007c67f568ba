import Egressfox.Cache.Store

/-!
# Refreshing an HTTP source

`RefreshHTTP` of `internal/operator/http_refresh.go`.  What lies outside the cache is an argument
of the run: the configuration that `ResolveHTTP` finds, before and after the request, the answers
of the server, and whether the parser admits a body.

A run accepts a row whose validation time is at most five minutes ahead of its own time, while
the loader refuses a row that was validated before it was accepted.  `loadable_iff` says which
sequences of refreshes, deletions and prunes leave only rows that can be loaded.
-/

namespace Egressfox.Cache

open Lib
open Checkpoint (unixNano ofUnixNano)

/-- `maxSourceStale`. -/
def maxSourceStale : Option Duration → Duration
  | none => 24 * Duration.hour
  | some value =>
    if value < Duration.minute || value > 7 * 24 * Duration.hour then 24 * Duration.hour
    else value

theorem maxSourceStale_pos (value : Option Duration) : 0 < maxSourceStale value := by
  cases value with
  | none => decide
  | some value =>
    unfold maxSourceStale
    dsimp only
    split_ifs with h
    · decide
    · rw [Bool.or_eq_true, decide_eq_true_eq, decide_eq_true_eq, not_or] at h
      have hminute : (0 : Duration) < Duration.minute := by decide
      exact hminute.trans_le (not_lt.mp h.1)

/-- `source.FetchResult`. -/
structure FetchResult where
  body : Bytes
  contentType : Bytes
  notModified : Bool
  etag : Bytes
  lastModified : Bytes
deriving DecidableEq

/-- The failure codes. -/
inductive RefreshFailure where
  | configuration
  | sourceAcquire
  | sourceNotModifiedWithoutCache
  | sourceObsolete
  | cacheValidate
  | sourceRejected
  | snapshotRejected
  | cacheWrite
deriving DecidableEq, Repr

/-- The inputs of one run of `RefreshHTTP`. -/
structure Refresh where
  now : Time
  /-- The key and fingerprint of the source, if it can be resolved. -/
  config : Option (Bytes × Digest)
  maxStale : Option Duration
  readable : Bool
  /-- The answer to a request with these validators, after the retries. -/
  fetch : Bytes → Bytes → Option FetchResult
  /-- The answer to a second request, without validators. -/
  refetch : Option FetchResult
  /-- The fingerprint of the source after the request, if pool and source are still the same. -/
  latest : Option Digest
  /-- Whether the body is parsed and accepted as a snapshot. -/
  admits : FetchResult → Except RefreshFailure Unit
  exec : Exec

/-- The row may be used at this time. -/
def SourceCache.usable (entry : SourceCache) (now : Time) (maxStale : Option Duration) : Bool :=
  !decide (now < entry.validatedAt - 5 * Duration.minute) &&
    decide (now < entry.validatedAt + maxSourceStale maxStale)

variable (sum256 : Bytes → Digest)

/-- The entry a refresh may revalidate. -/
def Refresh.entry (r : Refresh) (table : Table) (key : Bytes) (fingerprint : Digest) :
    Option SourceCache :=
  match loadSourceCache sum256 table r.readable key fingerprint with
  | .ok (some entry) => if entry.usable r.now r.maxStale then some entry else none
  | _ => none

/-- The answer that is to be stored, with the key and fingerprint it is stored under. -/
def Refresh.answer (r : Refresh) (table : Table) :
    Except RefreshFailure (Bytes × Digest × FetchResult) :=
  match r.config with
  | none => .error .configuration
  | some (key, fingerprint) =>
    let entry := r.entry sum256 table key fingerprint
    let validators := (entry.map fun e => (e.etag, e.lastModified)).getD ([], [])
    match r.fetch validators.1 validators.2 with
    | none => .error .sourceAcquire
    | some result =>
      let result? :=
        if result.notModified && entry.isNone then
          r.refetch.filter fun second => !second.notModified
        else some result
      match result? with
      | none => .error .sourceNotModifiedWithoutCache
      | some result =>
        if r.latest ≠ some fingerprint then .error .sourceObsolete
        else if result.notModified then .ok (key, fingerprint, result)
        else
          match r.admits result with
          | .error code => .error code
          | .ok () => .ok (key, fingerprint, result)

/-- The entry of an accepted body. -/
def FetchResult.accepted (result : FetchResult) (key : Bytes) (fingerprint : Digest) (now : Time) :
    SourceCache :=
  ⟨key, fingerprint, result.body, result.contentType, result.etag, result.lastModified, now, now⟩

/-- `RefreshHTTP`; the result says whether the body changed. -/
def refreshHTTP (table : Table) (r : Refresh) : Table × Except RefreshFailure Bool :=
  match r.answer sum256 table with
  | .error code => (table, .error code)
  | .ok (key, fingerprint, result) =>
    if result.notModified then
      match validateSourceCache table r.exec key fingerprint r.now result.etag
        result.lastModified with
      | (table, .error _) => (table, .error .cacheValidate)
      | (table, .ok ()) => (table, .ok false)
    else
      let entry := r.entry sum256 table key fingerprint
      match saveSourceCache sum256 table r.exec (result.accepted key fingerprint r.now) with
      | (table, .error _) => (table, .error .cacheWrite)
      | (table, .ok ()) => (table, .ok (entry.all fun old => old.body ≠ result.body))

/-- One operation on the cache. -/
inductive CacheOp where
  | refresh (r : Refresh)
  | delete (key : Bytes) (exec : Exec)
  | prune (readable : Bool) (execs : Bytes → Exec) (live : List Bytes) (now : Time)

def CacheOp.run (table : Table) : CacheOp → Table
  | .refresh r => (refreshHTTP sum256 table r).1
  | .delete key exec => (deleteSourceCache table exec key).1
  | .prune readable execs live now => (pruneSourceCache table readable execs live now).1

/-! ## Rows that can be loaded -/

/-- Every row is returned by `LoadSourceCache` with its own fingerprint. -/
def Loadable (table : Table) : Prop :=
  ∀ key row, table.lookup key = some row →
    loadSourceCache sum256 table true key row.fingerprint = .ok (some (row.entry key))

/-- What a refresh writes is in order: a row that a 304 revalidates was accepted no later than
now, and a new row is accepted at a time after 1970 that the table can hold. -/
def Steady (table : Table) (r : Refresh) : Prop :=
  ∀ key fingerprint result, r.answer sum256 table = .ok (key, fingerprint, result) →
    r.exec ≠ .failed →
      if result.notModified then
        result.etag.length ≤ maxValidator → result.lastModified.length ≤ maxValidator →
          ∀ row, table.lookup key = some row → row.fingerprint = fingerprint →
            row.acceptedAtNs ≤ unixNano r.now
      else (result.accepted key fingerprint r.now).storable = true → 0 < unixNano r.now

variable {sum256}

variable {row : Row} {table : Table} {key other : Bytes} {exec : Exec} {now : Time}

theorem Row.consistent_iff :
    row.consistent sum256 = true ↔ sum256 row.body = row.bodyDigest ∧ 0 < row.acceptedAtNs ∧
      row.acceptedAtNs ≤ row.validatedAtNs ∧ row.etag.length ≤ maxValidator ∧
      row.lastModified.length ≤ maxValidator := by
  have hbody := row.body_le
  simp [Row.consistent, and_assoc, hbody]

/-- Loadable rows are the consistent ones. -/
theorem loadable_iff_consistent :
    Loadable sum256 table ↔ ∀ key row, table.lookup key = some row →
      row.consistent sum256 = true := by
  refine forall_congr' fun key => forall_congr' fun row => forall_congr' fun hlookup => ?_
  rw [loadSourceCache, hlookup]
  simp only [Bool.not_true, Bool.false_eq_true, if_false, ne_eq, not_true_eq_false]
  cases hconsistent : row.consistent sum256 with
  | false => simp
  | true => simp [Row.entry]

/-! ## One step -/

theorem Loadable.empty : Loadable sum256 ∅ := fun key row h => by
  rw [AList.lookup_empty] at h
  cases h

/-- Rows that remain can still be loaded. -/
theorem Loadable.mono {table' : Table} (h : Loadable sum256 table)
    (hsub : ∀ key row, table'.lookup key = some row → table.lookup key = some row) :
    Loadable sum256 table' :=
  loadable_iff_consistent.mpr fun key row hrow =>
    loadable_iff_consistent.mp h key row (hsub key row hrow)

/-- One row replaced. -/
theorem loadable_insert_iff (h : Loadable sum256 table) :
    Loadable sum256 (table.insert key row) ↔ row.consistent sum256 = true := by
  constructor
  · intro h'
    exact loadable_iff_consistent.mp h' key row (AList.lookup_insert _)
  · intro hrow
    refine loadable_iff_consistent.mpr fun other row' hlookup => ?_
    by_cases heq : other = key
    · subst heq
      rw [AList.lookup_insert] at hlookup
      obtain rfl := Option.some.inj hlookup
      exact hrow
    · rw [AList.lookup_insert_ne heq] at hlookup
      exact loadable_iff_consistent.mp h other row' hlookup

theorem loadable_apply_iff {after : Table} (h : Loadable sum256 table) :
    Loadable sum256 (exec.apply table after) ↔ (exec ≠ .failed → Loadable sum256 after) := by
  cases exec with
  | failed => exact ⟨fun _ hne => absurd rfl hne, fun _ => h⟩
  | done | unreported => exact ⟨fun h' _ => h', fun h' => h' (by decide)⟩

theorem lookup_of_apply_erase (h : (exec.apply table (table.erase key)).lookup other = some row) :
    table.lookup other = some row := by
  have herase : (table.erase key).lookup other = some row → table.lookup other = some row := by
    intro h'
    by_cases heq : other = key
    · subst heq
      rw [AList.lookup_erase] at h'
      cases h'
    · rwa [AList.lookup_erase_ne heq] at h'
  cases exec with
  | failed => exact h
  | done | unreported => exact herase h

theorem lookup_of_deleteAll {deletions : List (Bytes × Exec)}
    (h : (deleteAll table deletions).1.lookup other = some row) :
    table.lookup other = some row := by
  induction deletions generalizing table with
  | nil => exact h
  | cons deletion rest ih =>
    obtain ⟨key, exec⟩ := deletion
    rw [deleteAll, deleteSourceCache] at h
    cases hreport : exec.report .cacheDelete with
    | error code =>
      rw [hreport] at h
      exact lookup_of_apply_erase h
    | ok _ =>
      rw [hreport] at h
      exact lookup_of_apply_erase (ih h)

/-- Deleting and pruning leave rows out and change none. -/
theorem lookup_of_prune {readable : Bool} {execs : Bytes → Exec} {live : List Bytes}
    (h : (pruneSourceCache table readable execs live now).1.lookup other = some row) :
    table.lookup other = some row := by
  unfold pruneSourceCache at h
  split_ifs at h
  · exact h
  · exact lookup_of_deleteAll h

/-- What a save leaves. -/
theorem loadable_save_iff (h : Loadable sum256 table) {result : FetchResult}
    {fingerprint : Digest} :
    Loadable sum256 (saveSourceCache sum256 table exec (result.accepted key fingerprint now)).1 ↔
      (exec ≠ .failed → (result.accepted key fingerprint now).storable = true →
        0 < unixNano now) := by
  unfold saveSourceCache
  split_ifs with hstorable
  · rw [loadable_apply_iff h, loadable_insert_iff h, Row.consistent_iff]
    obtain ⟨-, -, -, -, hetag, hlast⟩ := SourceCache.storable_iff.mp hstorable
    constructor
    · intro h' hexec _
      exact (h' hexec).2.1
    · intro h' hexec
      exact ⟨rfl, h' hexec hstorable, le_rfl, hetag, hlast⟩
  · exact ⟨fun _ _ hstorable' => absurd hstorable' hstorable, fun _ => h⟩

/-- What a revalidation leaves. -/
theorem loadable_validate_iff (h : Loadable sum256 table) {fingerprint : Digest}
    {etag lastModified : Bytes} :
    Loadable sum256 (validateSourceCache table exec key fingerprint now etag lastModified).1 ↔
      (exec ≠ .failed → etag.length ≤ maxValidator → lastModified.length ≤ maxValidator →
        ∀ row, table.lookup key = some row → row.fingerprint = fingerprint →
          row.acceptedAtNs ≤ unixNano now) := by
  unfold validateSourceCache
  by_cases hlong : (etag.length > maxValidator || lastModified.length > maxValidator) = true
  · rw [if_pos hlong]
    refine ⟨fun _ _ hetag hlast => ?_, fun _ => h⟩
    rw [Bool.or_eq_true, decide_eq_true_eq, decide_eq_true_eq] at hlong
    omega
  · rw [if_neg hlong]
    rw [Bool.or_eq_true, decide_eq_true_eq, decide_eq_true_eq, not_or, not_lt, not_lt] at hlong
    cases hlookup : table.lookup key with
    | none => exact ⟨fun _ _ _ _ row hrow => (nomatch hrow), fun _ => h⟩
    | some row =>
      dsimp only
      by_cases hfingerprint : row.fingerprint = fingerprint
      · obtain ⟨hdigest, haccepted, -, hetag, hlast⟩ :=
          Row.consistent_iff.mp (loadable_iff_consistent.mp h key row hlookup)
        rw [if_neg (not_not.mpr hfingerprint), loadable_apply_iff h, loadable_insert_iff h,
          Row.consistent_iff]
        constructor
        · rintro h' hexec - - row' hrow' -
          obtain rfl := Option.some.inj hrow'
          exact (h' hexec).2.2.1
        · intro h' hexec
          refine ⟨hdigest, haccepted, h' hexec hlong.1 hlong.2 row rfl hfingerprint, ?_, ?_⟩
          · change (if etag = [] then row.etag else etag).length ≤ maxValidator
            split_ifs
            · exact hetag
            · exact hlong.1
          · change (if lastModified = [] then row.lastModified else lastModified).length ≤ _
            split_ifs
            · exact hlast
            · exact hlong.2
      · rw [if_pos hfingerprint]
        refine ⟨fun _ _ _ _ row' hrow' heq => ?_, fun _ => h⟩
        obtain rfl := Option.some.inj hrow'
        exact absurd heq hfingerprint

/-- The table after a refresh is that of its one write, whatever is reported of it. -/
theorem refreshHTTP_fst (table : Table) (r : Refresh) :
    (refreshHTTP sum256 table r).1 =
      match r.answer sum256 table with
      | .error _ => table
      | .ok (key, fingerprint, result) =>
        if result.notModified then
          (validateSourceCache table r.exec key fingerprint r.now result.etag
            result.lastModified).1
        else (saveSourceCache sum256 table r.exec (result.accepted key fingerprint r.now)).1 := by
  unfold refreshHTTP
  cases r.answer sum256 table with
  | error code => rfl
  | ok answer =>
    obtain ⟨key, fingerprint, result⟩ := answer
    dsimp only
    split_ifs
    · cases hwrite : validateSourceCache table r.exec key fingerprint r.now result.etag
        result.lastModified with
      | mk after report => cases report <;> rfl
    · cases hwrite : saveSourceCache sum256 table r.exec
        (result.accepted key fingerprint r.now) with
      | mk after report => cases report <;> rfl

/-- **A refresh leaves loadable rows exactly if it is steady.** -/
theorem loadable_refresh_iff (h : Loadable sum256 table) (r : Refresh) :
    Loadable sum256 (refreshHTTP sum256 table r).1 ↔ Steady sum256 table r := by
  rw [refreshHTTP_fst]
  unfold Steady
  cases hanswer : r.answer sum256 table with
  | error code => exact ⟨fun _ _ _ _ hok => (nomatch hok), fun _ => h⟩
  | ok answer =>
    obtain ⟨key, fingerprint, result⟩ := answer
    dsimp only
    constructor
    · intro hloadable key' fingerprint' result' hok hexec
      cases hok
      split_ifs at hloadable ⊢
      · exact (loadable_validate_iff h).mp hloadable hexec
      · exact (loadable_save_iff h).mp hloadable hexec
    · intro hsteady
      have hsteady := hsteady key fingerprint result rfl
      split_ifs at hsteady ⊢
      · exact (loadable_validate_iff h).mpr hsteady
      · exact (loadable_save_iff h).mpr hsteady

/-! ## Any sequence of operations -/

/-- What the operation writes is in order. -/
def CacheOp.steady (sum256 : Bytes → Digest) (table : Table) : CacheOp → Prop
  | .refresh r => Steady sum256 table r
  | _ => True

theorem loadable_run_iff (h : Loadable sum256 table) (op : CacheOp) :
    Loadable sum256 (op.run sum256 table) ↔ op.steady sum256 table := by
  cases op with
  | refresh r => exact loadable_refresh_iff h r
  | delete key exec =>
    exact ⟨fun _ => trivial, fun _ => h.mono fun _ _ hrow => lookup_of_apply_erase hrow⟩
  | prune readable execs live now =>
    exact ⟨fun _ => trivial, fun _ => h.mono fun _ _ hrow => lookup_of_prune hrow⟩

/-- Along a run, the rows stay loadable as long as the operations are steady. -/
theorem loadable_along_iff (h : Loadable sum256 table) (ops : List CacheOp) :
    (∀ earlier later, ops = earlier ++ later →
      Loadable sum256 (earlier.foldl (CacheOp.run sum256) table)) ↔
    ∀ earlier op later, ops = earlier ++ op :: later →
      op.steady sum256 (earlier.foldl (CacheOp.run sum256) table) := by
  constructor
  · rintro hall earlier op later rfl
    have hbefore := hall earlier (op :: later) rfl
    have hafter := hall (earlier ++ [op]) later (by simp)
    rw [List.foldl_append] at hafter
    exact (loadable_run_iff hbefore op).mp hafter
  · intro hsteady earlier
    -- by induction on the part of the run, from its end
    induction earlier using List.reverseRecOn with
    | nil => exact fun _ _ => h
    | append_singleton earlier op ih =>
      intro later heq
      rw [List.append_assoc] at heq
      rw [List.foldl_append]
      exact (loadable_run_iff (ih _ heq) op).mpr (hsteady earlier op later heq)

/-- **When the cache keeps itself loadable**: every row that any sequence of refreshes, deletions
and prunes leaves, at any point, is returned by `LoadSourceCache` exactly if each refresh is
steady. -/
theorem loadable_iff (sum256 : Bytes → Digest) (ops : List CacheOp) :
    (∀ earlier later, ops = earlier ++ later →
      Loadable sum256 (earlier.foldl (CacheOp.run sum256) ∅)) ↔
    ∀ earlier r later, ops = earlier ++ .refresh r :: later →
      Steady sum256 (earlier.foldl (CacheOp.run sum256) ∅) r := by
  rw [loadable_along_iff .empty]
  constructor
  · intro h earlier r later heq
    exact h earlier (.refresh r) later heq
  · intro h earlier op later heq
    cases op with
    | refresh r => exact h earlier r later heq
    | delete key exec | prune readable execs live now => trivial

namespace Sample

def zeroHash : Bytes → Digest := fun _ => .zero

/-- A source that answers with a body first and with 304 to a request with the validator. -/
def refreshAt (now : Time) : Refresh where
  now := now
  config := some (ascii "uid/feed", .zero)
  maxStale := none
  readable := true
  fetch := fun etag _ =>
    some ⟨ascii "body", [], decide (etag = ascii "tag"), ascii "tag", []⟩
  refetch := none
  latest := some .zero
  admits := fun _ => .ok ()
  exec := .done

/-- A minute after the epoch the body is accepted, and then a 304 revalidates it while the clock
says half a minute. -/
def stepsBack : List CacheOp :=
  [.refresh (refreshAt (Checkpoint.unixEpoch + 60 * Duration.second)),
    .refresh (refreshAt (Checkpoint.unixEpoch + 30 * Duration.second))]

/-- The row that is left is reported as corrupt. -/
theorem revalidated_corrupt :
    loadSourceCache zeroHash (stepsBack.foldl (CacheOp.run zeroHash) ∅) true (ascii "uid/feed")
      .zero = .error .cacheCorrupt := by
  decide +kernel

end Sample

end Egressfox.Cache
