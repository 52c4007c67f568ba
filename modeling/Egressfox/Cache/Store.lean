import Egressfox.Checkpoint.Codec
import Egressfox.Lib.Assoc

/-!
# The source cache

The table `http_source_cache` and the methods of `Store` on it, in
`internal/state/source_cache.go`.  A row holds the last body that was accepted for an HTTP
source; what the schema checks is part of the type.  The hash is a parameter.

A statement of the database may fail, and it may fail after it took effect.
-/

namespace Egressfox.Cache

open Lib
open Checkpoint (unixNano ofUnixNano)

def maxCachedBody : Nat := 4194304

def maxValidator : Nat := 1024

/-- A row of `http_source_cache`. -/
structure Row where
  fingerprint : Digest
  body : Bytes
  bodyDigest : Digest
  contentType : Bytes
  etag : Bytes
  lastModified : Bytes
  acceptedAtNs : Int
  validatedAtNs : Int
  body_le : body.length ≤ maxCachedBody
deriving DecidableEq

/-- The rows by source key. -/
abbrev Table := Assoc Bytes Row

/-- `SourceCache`. -/
structure SourceCache where
  key : Bytes
  fingerprint : Digest
  body : Bytes
  contentType : Bytes
  etag : Bytes
  lastModified : Bytes
  acceptedAt : Time
  validatedAt : Time
deriving DecidableEq

/-- The failure codes. -/
inductive Failure where
  | cacheRead
  | cacheCorrupt
  | cacheInvalid
  | cacheWrite
  | cacheInvalidValidator
  | cacheValidate
  | cacheMissing
  | cacheVersion
  | cacheDelete
  | cachePruneRead
deriving DecidableEq, Repr

/-- How a statement that writes ends. -/
inductive Exec where
  | done
  /-- It took effect, but an error was returned. -/
  | unreported
  | failed
deriving DecidableEq, Repr

/-- The table after a statement. -/
def Exec.apply (exec : Exec) (before after : Table) : Table :=
  match exec with
  | .failed => before
  | _ => after

/-- What a caller learns of a statement. -/
def Exec.report (exec : Exec) (code : Failure) : Except Failure Unit :=
  match exec with
  | .done => .ok ()
  | _ => .error code

/-- The entry of a row. -/
def Row.entry (row : Row) (key : Bytes) : SourceCache :=
  ⟨key, row.fingerprint, row.body, row.contentType, row.etag, row.lastModified,
    ofUnixNano row.acceptedAtNs, ofUnixNano row.validatedAtNs⟩

variable (sum256 : Bytes → Digest)

/-- The consistency check of `LoadSourceCache`. -/
def Row.consistent (row : Row) : Bool :=
  !(decide (row.body.length > maxCachedBody) || decide (sum256 row.body ≠ row.bodyDigest) ||
    decide (row.acceptedAtNs ≤ 0) || decide (row.validatedAtNs < row.acceptedAtNs) ||
    decide (row.etag.length > maxValidator) || decide (row.lastModified.length > maxValidator))

/-- `Store.LoadSourceCache`. -/
def loadSourceCache (table : Table) (readable : Bool) (key : Bytes) (fingerprint : Digest) :
    Except Failure (Option SourceCache) :=
  if !readable then .error .cacheRead
  else
    match table.lookup key with
    | none => .ok none
    | some row =>
      if row.fingerprint ≠ fingerprint then .ok none
      else if !row.consistent sum256 then .error .cacheCorrupt
      else .ok (some { row.entry key with fingerprint := fingerprint })

theorem loadSourceCache_eq_some {sum256 : Bytes → Digest} {table : Table} {readable : Bool}
    {key : Bytes} {fingerprint : Digest} {entry : SourceCache} :
    loadSourceCache sum256 table readable key fingerprint = .ok (some entry) ↔
      readable = true ∧ ∃ row, table.lookup key = some row ∧ row.fingerprint = fingerprint ∧
        row.consistent sum256 = true ∧ entry = row.entry key := by
  unfold loadSourceCache
  cases readable with
  | false => simp
  | true =>
    cases hrow : table.lookup key with
    | none => simp
    | some row =>
      by_cases hfingerprint : row.fingerprint = fingerprint
      · subst hfingerprint
        cases hconsistent : row.consistent sum256 with
        | false => simp [hconsistent]
        | true =>
          constructor
          · intro h
            refine ⟨rfl, row, rfl, rfl, hconsistent, ?_⟩
            simpa [hconsistent, Row.entry] using h.symm
          · rintro ⟨-, row', hrow', -, -, rfl⟩
            obtain rfl := Option.some.inj hrow'
            simp [hconsistent, Row.entry]
      · simp [hfingerprint]

/-- The check of `SaveSourceCache`. -/
def SourceCache.storable (entry : SourceCache) : Bool :=
  !(decide (entry.key = []) || decide (entry.body.length > maxCachedBody) ||
    decide (entry.acceptedAt = 0) || decide (entry.validatedAt < entry.acceptedAt) ||
    decide (entry.etag.length > maxValidator) || decide (entry.lastModified.length > maxValidator))

theorem SourceCache.storable_iff {entry : SourceCache} :
    entry.storable = true ↔ entry.key ≠ [] ∧ entry.body.length ≤ maxCachedBody ∧
      entry.acceptedAt ≠ 0 ∧ entry.acceptedAt ≤ entry.validatedAt ∧
      entry.etag.length ≤ maxValidator ∧ entry.lastModified.length ≤ maxValidator := by
  simp [storable, and_assoc]

/-- The row of an entry. -/
def SourceCache.row (entry : SourceCache) (h : entry.storable = true) : Row where
  fingerprint := entry.fingerprint
  body := entry.body
  bodyDigest := sum256 entry.body
  contentType := entry.contentType
  etag := entry.etag
  lastModified := entry.lastModified
  acceptedAtNs := unixNano entry.acceptedAt
  validatedAtNs := unixNano entry.validatedAt
  body_le := (SourceCache.storable_iff.mp h).2.1

/-- `Store.SaveSourceCache`. -/
def saveSourceCache (table : Table) (exec : Exec) (entry : SourceCache) :
    Table × Except Failure Unit :=
  if h : entry.storable = true then
    (exec.apply table (table.insert entry.key (entry.row sum256 h)), exec.report .cacheWrite)
  else (table, .error .cacheInvalid)

/-- A row after it was revalidated.  An empty validator keeps the stored one. -/
def Row.validated (row : Row) (at_ : Time) (etag lastModified : Bytes) : Row :=
  { row with
    validatedAtNs := unixNano at_
    etag := if etag = [] then row.etag else etag
    lastModified := if lastModified = [] then row.lastModified else lastModified }

/-- `Store.ValidateSourceCache`. -/
def validateSourceCache (table : Table) (exec : Exec) (key : Bytes) (fingerprint : Digest)
    (at_ : Time) (etag lastModified : Bytes) : Table × Except Failure Unit :=
  if etag.length > maxValidator || lastModified.length > maxValidator then
    (table, .error .cacheInvalidValidator)
  else
    match table.lookup key with
    | none => (table, .error (if exec = .done then .cacheMissing else .cacheValidate))
    | some row =>
      if row.fingerprint ≠ fingerprint then
        (table, .error (if exec = .done then .cacheMissing else .cacheValidate))
      else
        (exec.apply table (table.insert key (row.validated at_ etag lastModified)),
          exec.report .cacheValidate)

/-- `Store.SourceCacheVersion`: digest and validation time, without regard to the fingerprint. -/
def sourceCacheVersion (table : Table) (readable : Bool) (key : Bytes) :
    Except Failure (Option (Digest × Time)) :=
  if !readable then .error .cacheVersion
  else
    match table.lookup key with
    | none => .ok none
    | some row =>
      if row.body.length > maxCachedBody || row.validatedAtNs ≤ 0 then .error .cacheVersion
      else if sum256 row.body ≠ row.bodyDigest then .error .cacheCorrupt
      else .ok (some (row.bodyDigest, ofUnixNano row.validatedAtNs))

theorem sourceCacheVersion_eq_none {sum256 : Bytes → Digest} {table : Table} {readable : Bool}
    {key : Bytes} : sourceCacheVersion sum256 table readable key = .ok none ↔
      readable = true ∧ table.lookup key = none := by
  unfold sourceCacheVersion
  cases readable with
  | false => simp
  | true =>
    cases hrow : table.lookup key with
    | none => simp
    | some row =>
      dsimp only
      split_ifs
      all_goals simp

theorem sourceCacheVersion_eq_some {sum256 : Bytes → Digest} {table : Table} {readable : Bool}
    {key : Bytes} {digest : Digest} {validatedAt : Time} :
    sourceCacheVersion sum256 table readable key = .ok (some (digest, validatedAt)) ↔
      readable = true ∧ ∃ row, table.lookup key = some row ∧ 0 < row.validatedAtNs ∧
        sum256 row.body = row.bodyDigest ∧ digest = row.bodyDigest ∧
        validatedAt = ofUnixNano row.validatedAtNs := by
  unfold sourceCacheVersion
  cases readable with
  | false => simp
  | true =>
    cases hrow : table.lookup key with
    | none => simp
    | some row =>
      by_cases hvalidated : row.validatedAtNs ≤ 0
      · simp [hvalidated, not_lt.mpr hvalidated]
      · have hbody : ¬row.body.length > maxCachedBody := not_lt.mpr row.body_le
        by_cases hsum : sum256 row.body = row.bodyDigest
        · simp [hvalidated, hbody, hsum, not_le.mp hvalidated, eq_comm]
        · simp [hvalidated, hbody, hsum]

/-- `Store.DeleteSourceCache`. -/
def deleteSourceCache (table : Table) (exec : Exec) (key : Bytes) : Table × Except Failure Unit :=
  (exec.apply table (table.erase key), exec.report .cacheDelete)

/-- A row is pruned if its source is gone or it was not validated for eight days. -/
def Row.stale (row : Row) (key : Bytes) (live : List Bytes) (now : Time) : Bool :=
  key ∉ live || !decide (now < ofUnixNano row.validatedAtNs + 8 * 24 * Duration.hour)

/-- The deletions of `PruneSourceCache`, up to the first that fails. -/
def deleteAll (table : Table) : List (Bytes × Exec) → Table × Except Failure Unit
  | [] => (table, .ok ())
  | (key, exec) :: rest =>
    match deleteSourceCache table exec key with
    | (table, .error code) => (table, .error code)
    | (table, .ok ()) => deleteAll table rest

/-- `Store.PruneSourceCache`.  The statements end as `execs` says, one for each stale key. -/
def pruneSourceCache (table : Table) (readable : Bool) (execs : Bytes → Exec) (live : List Bytes)
    (now : Time) : Table × Except Failure Unit :=
  if !readable then (table, .error .cachePruneRead)
  else
    let stale := (table.entries.filter fun entry => entry.2.stale entry.1 live now).map (·.1)
    deleteAll table (stale.map fun key => (key, execs key))

end Egressfox.Cache
