import Egressfox.Pool.Transcript

/-!
# The guard of a publication

`SnapshotGuard` of `internal/operator/snapshot_guard.go` and the reads of `Pipeline.Run` of
`internal/operator/pipeline.go` that it is made from: the build of the pool, the probe target and
the credentials of a managed gateway.

Between the reads of a run the Secrets and the rows may change.  A run can rely on the guard for
each Secret whose reads agree and each row whose loads agree: what it read there is what is stored
when the check succeeds (`unchanged_of_check`).  Two sources that share a Secret are enough for a
run that cannot (`Sample.shared_secret_changed`).
-/

namespace Egressfox.Pool

open Lib Endpoint Source
open Checkpoint (ofUnixNano)
open Cache (Row SourceCache sourceCacheVersion sourceCacheVersion_eq_some loadSourceCache_eq_some)

/-! ## The guard -/

/-- `objectRevision`, and what is compared with it. -/
structure ObjectMeta where
  namespace_ : Bytes
  name : Bytes
  uid : Bytes
  generation : Int
  resourceVersion : Bytes
deriving DecidableEq, Repr

/-- The metadata of a pool. -/
def ProxyPool.meta (pool : ProxyPool) : ObjectMeta :=
  ⟨pool.namespace_, pool.name, pool.uid, pool.generation, pool.resourceVersion⟩

/-- What the guard sees when it checks. -/
structure Moment where
  gateway : Bytes → Bytes → Option ObjectMeta
  pool : Bytes → Bytes → Option ObjectMeta
  world : World

/-- `SnapshotGuard`. -/
structure SnapshotGuard where
  gateway : ObjectMeta
  pool : ObjectMeta
  secrets : Assoc Bytes ResourceRevision
  cacheVersions : Assoc Bytes CacheVersion := ∅
deriving DecidableEq

/-- `NewSnapshotGuard`. -/
def newSnapshotGuard (gateway : ObjectMeta) (pool : ProxyPool)
    (secrets : Assoc Bytes ResourceRevision) : Option SnapshotGuard :=
  if gateway.uid = [] || pool.uid = [] then none
  else some { gateway, pool := pool.meta, secrets }

theorem secrets_of_newSnapshotGuard {gateway : ObjectMeta} {pool : ProxyPool}
    {secrets : Assoc Bytes ResourceRevision} {guard : SnapshotGuard}
    (h : newSnapshotGuard gateway pool secrets = some guard) : guard.secrets = secrets := by
  unfold newSnapshotGuard at h
  split_ifs at h
  rw [← Option.some.inj h]

/-- `sameRevision`, for an object that could be read. -/
def sameRevision (expected : ObjectMeta) (actual : Option ObjectMeta) : Bool :=
  actual.any fun object => object.uid = expected.uid && object.generation = expected.generation &&
    object.resourceVersion = expected.resourceVersion

/-- The check of one Secret. -/
def secretUnchanged (world : World) (name : Bytes) (expected : ResourceRevision) : Bool :=
  if expected.uid = [] && expected.resourceVersion = [] then world.secret name = .notFound
  else
    match world.secret name with
    | .found secret =>
      secret.uid = expected.uid && secret.resourceVersion = expected.resourceVersion
    | _ => false

/-- The check of one cache entry. -/
def versionUnchanged (sum256 : Bytes → Digest) (world : World) (now : Time) (key : Bytes)
    (expected : CacheVersion) : Bool :=
  if expected.expiresAt ≠ 0 && !decide (now < expected.expiresAt) then false
  else
    match sourceCacheVersion sum256 world.table world.readable key with
    | .error _ => false
    | .ok none => !expected.present
    | .ok (some (digest, validatedAt)) =>
      expected.present && digest = expected.digest && validatedAt = expected.validatedAt

variable {g : SnapshotGuard} {moment : Moment} {now : Time} {name : Bytes} {secret : StoredSecret}
  {P : Platform} {log : Log}

namespace SnapshotGuard

/-- `BindCache`. -/
def bindCache (g : SnapshotGuard) (versions : Assoc Bytes CacheVersion) : SnapshotGuard :=
  { g with cacheVersions := versions }

/-- `BindSelected`. -/
def bindSelected (g : SnapshotGuard) (records : List Record) : SnapshotGuard :=
  let selected := records.flatMap fun record => record.provenance.map Provenance.source
  { g with
    cacheVersions := Assoc.mapValues
      (fun version =>
        if version.sourceID ∈ selected then version else { version with expiresAt := 0 })
      g.cacheVersions }

/-- `Check`. -/
def check (sum256 : Bytes → Digest) (g : SnapshotGuard) (moment : Moment) (now : Time) : Bool :=
  sameRevision g.gateway (moment.gateway g.gateway.namespace_ g.gateway.name) &&
    sameRevision g.pool (moment.pool g.pool.namespace_ g.pool.name) &&
    Assoc.all (secretUnchanged moment.world) g.secrets &&
    Assoc.all (versionUnchanged sum256 moment.world now) g.cacheVersions

theorem check_iff {sum256 : Bytes → Digest} :
    g.check sum256 moment now = true ↔
      sameRevision g.gateway (moment.gateway g.gateway.namespace_ g.gateway.name) = true ∧
      sameRevision g.pool (moment.pool g.pool.namespace_ g.pool.name) = true ∧
      (∀ name expected, g.secrets.lookup name = some expected →
        secretUnchanged moment.world name expected = true) ∧
      ∀ key expected, g.cacheVersions.lookup key = some expected →
        versionUnchanged sum256 moment.world now key expected = true := by
  rw [check, Bool.and_eq_true, Bool.and_eq_true, Bool.and_eq_true, Assoc.all_iff, Assoc.all_iff,
    and_assoc, and_assoc]

end SnapshotGuard

/-- The check of a Secret that was there: it is still there, with this revision. -/
theorem secretUnchanged_revision {world : World} :
    secretUnchanged world name secret.revision = true ↔
      ∃ current, world.secret name = .found current ∧ current.revision = secret.revision := by
  have hstamped : ¬(decide (secret.uid = []) && decide (secret.resourceVersion = [])) = true := by
    rw [Bool.and_eq_true, decide_eq_true_eq, decide_eq_true_eq]
    rintro ⟨huid, hversion⟩
    rcases secret.stamped with hne | hne
    · exact hne huid
    · exact hne hversion
  rw [secretUnchanged, StoredSecret.revision, if_neg hstamped]
  cases hworld : world.secret name with
  | found current => simp [StoredSecret.revision]
  | notFound => simp
  | failed => simp

/-- The check of a version: it is not expired, and the row is missing if it was, or has the digest
and the time it had. -/
theorem versionUnchanged_iff {sum256 : Bytes → Digest} {world : World} {key : Bytes}
    {version : CacheVersion} : versionUnchanged sum256 world now key version = true ↔
      (version.expiresAt ≠ 0 → now < version.expiresAt) ∧
      (version.present = false ∧
          sourceCacheVersion sum256 world.table world.readable key = .ok none ∨
        version.present = true ∧ sourceCacheVersion sum256 world.table world.readable key =
          .ok (some (version.digest, version.validatedAt))) := by
  have hexpired : (decide (version.expiresAt ≠ 0) && !decide (now < version.expiresAt)) = true ↔
      ¬(version.expiresAt ≠ 0 → now < version.expiresAt) := by
    rw [Bool.and_eq_true, decide_eq_true_eq, Bool.not_eq_true', decide_eq_false_iff_not,
      Classical.not_imp]
  unfold versionUnchanged
  split
  next h =>
    rw [hexpired] at h
    constructor
    · rintro ⟨⟩
    · exact fun hall => absurd hall.1 h
  next h =>
    rw [hexpired, not_not] at h
    rw [and_iff_right h]
    cases hversion : sourceCacheVersion sum256 world.table world.readable key with
    | error code => simp
    | ok found =>
      cases found with
      | none => simp
      | some found =>
        obtain ⟨digest, validatedAt⟩ := found
        simp [and_assoc]

/-! ## The reads of a run -/

/-- The failure codes of the part of `Pipeline.Run` that reads. -/
inductive RunFailure where
  | pool (code : PoolFailure)
  | inventoryEmpty
  | targetUnavailable
  | targetKeyMissing
  | targetInvalid
  | authentication
  | snapshotGuard
deriving DecidableEq, Repr

/-- What a run is started with. -/
structure RunRequest where
  gateway : ObjectMeta
  pool : ProxyPool
  now : Time
  targetSecretRef : SecretKeyReference
  /-- Whether the probe target can be made from the value. -/
  targetValid : Bytes → Bool
  /-- The Secret with the credentials of a managed gateway. -/
  authentication : Option Bytes

/-- What a run has read: the pool, the probe target, and the guard over both. -/
structure Prepared where
  pool : PoolResult
  target : Bytes
  guard : SnapshotGuard
deriving DecidableEq

/-- `Pipeline.target`, as far as it reads. -/
def readTarget (r : RunRequest) : Reading (Except RunFailure (Bytes × ResourceRevision)) := do
  match ← getSecret r.targetSecretRef.name with
  | .found secret =>
    match secret.data.lookup r.targetSecretRef.key with
    | none => return .error .targetKeyMissing
    | some raw =>
      if !r.targetValid raw then return .error .targetInvalid
      else return .ok (raw, secret.revision)
  | _ => return .error .targetUnavailable

/-- The Secret that `ManagedRuntime.Prepare` found or created. -/
def readAuthenticationSecret (name : Option Bytes) : Reading (Except RunFailure Recorded) :=
  match name with
  | none => return .ok []
  | some name => do
      match ← getSecret name with
      | .found secret => return .ok [(name, secret.revision)]
      | _ => return .error .authentication

/-- The reads of `Pipeline.Run`, up to the guard. -/
def prepare (P : Platform) (r : RunRequest) : Reading (Except RunFailure Prepared) := do
  match ← buildPoolWithCache P r.pool true r.now with
  | .error code => return .error (.pool code)
  | .ok result =>
    if result.inventory.length = 0 then return .error .inventoryEmpty
    else
      (readTarget r).attempt fun (target, revision) =>
      (readAuthenticationSecret r.authentication).attempt fun recorded =>
        let inputRevisions := Assoc.writeAll result.sourceRevisions
          ((r.targetSecretRef.name, revision) :: recorded)
        match newSnapshotGuard r.gateway r.pool inputRevisions with
        | none => return .error .snapshotGuard
        | some guard => return .ok ⟨result, target, guard.bindCache result.cacheVersions⟩

theorem readTarget_records {r : RunRequest} :
    (readTarget r).Ensures (Records [r.targetSecretRef.name] []
      fun result => [(r.targetSecretRef.name, result.2)]) := by
  refine records_getSecret (List.mem_singleton_self _) ?_ Records.failed Records.failed
  intro secret
  dsimp only
  split
  · exact Records.failed
  split
  · exact Records.failed
  · apply Records.ended
    intro a ha entry hentry
    rw [← Except.ok.inj ha] at hentry
    exact hentry

theorem readAuthenticationSecret_records {name : Option Bytes} :
    (readAuthenticationSecret name).Ensures (Records name.toList [] id) := by
  cases name with
  | none =>
    apply Records.ended
    intro a ha entry hentry
    rwa [← Except.ok.inj ha] at hentry
  | some name =>
    refine records_getSecret (List.mem_singleton_self _) ?_ Records.failed Records.failed
    intro secret
    apply Records.ended
    intro a ha entry hentry
    rw [← Except.ok.inj ha] at hentry
    exact hentry

theorem readAuthenticationSecret_covers {name : Option Bytes} :
    (readAuthenticationSecret name).Ensures fun _ result => ∀ recorded, result = .ok recorded →
      name.toList ⊆ recorded.map Prod.fst := by
  cases name with
  | none => exact Asking.Ensures.pure fun _ _ => List.nil_subset _
  | some name =>
    refine Asking.Ensures.question_bind fun answer => ?_
    match answer with
    | .notFound => exact Asking.Ensures.pure fun _ h => nomatch h
    | .failed => exact Asking.Ensures.pure fun _ h => nomatch h
    | .found secret =>
      refine Asking.Ensures.pure fun recorded h => ?_
      rw [← Except.ok.inj h]
      exact List.Subset.refl _

/-- **A run records what it read**, and nothing else. -/
theorem prepare_reflects {r : RunRequest} :
    (prepare P r).Ensures fun log result => ∀ prepared, result = .ok prepared →
      Reflects P log prepared.guard.secrets prepared.guard.cacheVersions := by
  refine buildPoolWithCache_reflects.bind fun log result hbuild => ?_
  cases result with
  | error code => exact Asking.Ensures.pure fun _ h => nomatch h
  | ok result =>
    have hbuild := hbuild result rfl
    dsimp only
    split
    · exact Asking.Ensures.pure fun _ h => nomatch h
    refine Asking.Ensures.attempt readTarget_records ?_ ?_
    · exact fun _ _ _ _ h => nomatch h
    rintro log' ⟨target, revision⟩ htarget
    refine Asking.Ensures.attempt
      (readAuthenticationSecret_records.and readAuthenticationSecret_covers) ?_ ?_
    · exact fun _ _ _ _ h => nomatch h
    rintro log'' recorded ⟨hauthentication, hcovers⟩
    have hbacked : ∀ entry ∈ (r.targetSecretRef.name, revision) :: recorded,
        Backed (log' ++ log'') entry := by
      intro entry hentry
      rcases List.mem_cons.mp hentry with rfl | hentry
      · have hentry := htarget.backed _ rfl _ (List.mem_singleton_self _)
        exact (hentry.resolve_left List.not_mem_nil).mono (List.subset_append_left _ _)
      · have hentry := hauthentication.backed recorded rfl entry hentry
        exact (hentry.resolve_left List.not_mem_nil).mono (List.subset_append_right _ _)
    have hcovered : ∀ name secret, Saw (log' ++ log'') name (.found secret) →
        name ∈ ((r.targetSecretRef.name, revision) :: recorded).map Prod.fst := by
      intro name secret hsaw
      rcases saw_append.mp hsaw with hsaw | hsaw
      · rw [List.mem_singleton.mp (htarget.reads.secrets name _ hsaw)]
        exact List.mem_cons_self
      · exact List.mem_cons_of_mem _
          (hcovers recorded rfl (hauthentication.reads.secrets name _ hsaw))
    have hreads : ∀ key fingerprint answer,
        Loaded (log ++ (log' ++ log'')) key fingerprint answer →
          Loaded log key fingerprint answer := by
      intro key fingerprint answer hloaded
      rcases loaded_append.mp hloaded with hloaded | hloaded
      · exact hloaded
      rcases loaded_append.mp hloaded with hloaded | hloaded
      · exact (htarget.reads.caches _ _ _ hloaded).elim
      · exact (hauthentication.reads.caches _ _ _ hloaded).elim
    obtain ⟨hbacked, hcovered⟩ := hbuild.writeRevisions hbacked hcovered
    dsimp only
    split
    · exact Asking.Ensures.pure fun _ h => nomatch h
    next guard hguard =>
      refine Asking.Ensures.pure fun prepared h => ?_
      obtain rfl := Except.ok.inj h
      rw [List.append_nil]
      have hsecrets := secrets_of_newSnapshotGuard hguard
      refine ⟨?_, ?_, ?_, ?_⟩
      · intro name revision hlookup
        rw [SnapshotGuard.bindCache, hsecrets] at hlookup
        exact hbacked name revision hlookup
      · intro name secret hsaw
        rw [SnapshotGuard.bindCache, hsecrets]
        exact hcovered name secret hsaw
      · intro key version hlookup
        obtain ⟨fingerprint, answer, hloaded, hshows⟩ := hbuild.shown key version hlookup
        exact ⟨fingerprint, answer, loaded_append.mpr (.inl hloaded), hshows⟩
      · intro key fingerprint answer hloaded
        exact hbuild.loaded key fingerprint answer (hreads key fingerprint answer hloaded)

/-! ## Soundness -/

/-- Resource versions are unique: no two contents of a Secret have the same revision. -/
def UniqueRevisions (worlds : Nat → World) (current : World) : Prop :=
  ∀ i name secret secret', (worlds i).secret name = .found secret →
    current.secret name = .found secret' → secret.revision = secret'.revision →
    secret.data = secret'.data

/-- The hash has no collision among the bodies of a row. -/
def UniqueDigests (sum256 : Bytes → Digest) (worlds : Nat → World) (current : World) : Prop :=
  ∀ i key row row', (worlds i).table.lookup key = some row →
    current.table.lookup key = some row' → sum256 row.body = sum256 row'.body →
    row.body = row'.body

/-- The reads of a Secret that did not fail agree. -/
def SteadySecret (log : Log) (name : Bytes) : Prop :=
  ∀ answer answer', Saw log name answer → Saw log name answer' →
    answer ≠ .failed → answer' ≠ .failed → answer = answer'

/-- The loads of a row agree. -/
def SteadyRow (log : Log) (key : Bytes) : Prop :=
  ∀ fingerprint fingerprint' answer answer', Loaded log key fingerprint answer →
    Loaded log key fingerprint' answer' → answer = answer'

/-- The selection does not change what is known of the reads. -/
theorem Reflects.bindSelected (h : Reflects P log g.secrets g.cacheVersions)
    (records : List Record) :
    Reflects P log (g.bindSelected records).secrets (g.bindSelected records).cacheVersions := by
  refine ⟨h.backed, h.covered, ?_, ?_⟩
  · intro key version hlookup
    rw [SnapshotGuard.bindSelected, Assoc.lookup_mapValues] at hlookup
    obtain ⟨version', hversion', rfl⟩ := Option.map_eq_some_iff.mp hlookup
    obtain ⟨fingerprint, answer, hloaded, hshows⟩ := h.shown key version' hversion'
    refine ⟨fingerprint, answer, hloaded, ?_⟩
    split
    · exact hshows
    · exact hshows.of_eq rfl rfl rfl
  · intro key fingerprint answer hloaded
    obtain ⟨version, hversion⟩ := h.loaded key fingerprint answer hloaded
    rw [SnapshotGuard.bindSelected, Assoc.lookup_mapValues, hversion]
    exact ⟨_, rfl⟩

/-- A Secret that was read is still there, if its reads agree and the guard passes. -/
theorem Reflects.secret_unchanged (h : Reflects P log g.secrets g.cacheVersions)
    (hsteady : SteadySecret log name) (hcheck : g.check P.sum256 moment now = true)
    (hsaw : Saw log name (.found secret)) :
    ∃ current, moment.world.secret name = .found current ∧ current.revision = secret.revision := by
  obtain ⟨-, -, hsecrets, -⟩ := SnapshotGuard.check_iff.mp hcheck
  obtain ⟨revision, hlookup⟩ := h.covered name secret hsaw
  have hunchanged := hsecrets name revision hlookup
  rcases h.backed name revision hlookup with ⟨secret', hsaw', hrevision⟩ | ⟨hsaw', -⟩
  · have hsecret := hsteady _ _ hsaw hsaw' (nomatch ·) (nomatch ·)
    obtain rfl := Lookup.found.inj hsecret
    have hrevision : secret.revision = revision := hrevision
    rw [← hrevision] at hunchanged
    exact secretUnchanged_revision.mp hunchanged
  · exact nomatch hsteady _ _ hsaw hsaw' (nomatch ·) (nomatch ·)

/-- A row that was loaded is still there with the digest of its body. -/
theorem Reflects.row_unchanged (h : Reflects P log g.secrets g.cacheVersions) {key : Bytes}
    (hsteady : SteadyRow log key) (hcheck : g.check P.sum256 moment now = true)
    {fingerprint : Digest} {entry : SourceCache}
    (hloaded : Loaded log key fingerprint (.ok (some entry))) :
    ∃ row, moment.world.table.lookup key = some row ∧ P.sum256 row.body = P.sum256 entry.body := by
  obtain ⟨-, -, -, hversions⟩ := SnapshotGuard.check_iff.mp hcheck
  obtain ⟨version, hlookup⟩ := h.loaded key fingerprint _ hloaded
  obtain ⟨fingerprint', answer, hloaded', hshows⟩ := h.shown key version hlookup
  obtain rfl := hsteady _ _ _ _ hloaded hloaded'
  obtain ⟨hpresent, hdigest, -⟩ := hshows
  obtain ⟨-, hversion⟩ := versionUnchanged_iff.mp (hversions key version hlookup)
  rcases hversion with ⟨habsent, -⟩ | ⟨-, hversion⟩
  · exact nomatch habsent.symm.trans hpresent
  · obtain ⟨-, row, hrow, -, hsum, hbody, -⟩ := sourceCacheVersion_eq_some.mp hversion
    exact ⟨row, hrow, hsum.trans (hbody.symm.trans hdigest)⟩

/-- **The guard is sound for steady reads.**  If the guard passes, before or after it is bound to a
selection, then every Secret and every cached body that does not change between the reads of it
is stored at that moment as the run has read it.  A read whose value is not used counts as well:
the guard has the revision of the last read. -/
theorem unchanged_of_check {P : Platform} {r : RunRequest} {worlds : Nat → World}
    {prepared : Prepared} {log : Log} {g : SnapshotGuard} {moment : Moment} {now : Time}
    (hrun : (prepare P r).run (fun i => (worlds i).answer P.sum256) [] = (.ok prepared, log))
    (hrevisions : UniqueRevisions worlds moment.world)
    (hdigests : UniqueDigests P.sum256 worlds moment.world)
    (hg : g = prepared.guard ∨ ∃ selected, g = prepared.guard.bindSelected selected)
    (hcheck : g.check P.sum256 moment now = true) :
    (∀ name secret, SteadySecret log name → Saw log name (.found secret) →
      ∃ current, moment.world.secret name = .found current ∧ current.data = secret.data) ∧
    ∀ key fingerprint entry, SteadyRow log key → Loaded log key fingerprint (.ok (some entry)) →
      ∃ row, moment.world.table.lookup key = some row ∧ row.body = entry.body := by
  obtain ⟨own, hlog, hreflects⟩ :=
    prepare_reflects.run (fun i => (worlds i).answer P.sum256) []
  have hanswers : ∀ access ∈ ((prepare P r).run (fun i => (worlds i).answer P.sum256) []).2,
      ∃ i, access.2 = (worlds i).answer P.sum256 access.1 := Asking.mem_run fun _ h => nomatch h
  rw [hrun] at hlog hreflects hanswers
  obtain rfl : log = own := hlog
  have hreflects := hreflects prepared rfl
  have hreflects : Reflects P log g.secrets g.cacheVersions := by
    rcases hg with rfl | ⟨selected, rfl⟩
    · exact hreflects
    · exact hreflects.bindSelected selected
  constructor
  · intro name secret hsteady hsaw
    obtain ⟨current, hcurrent, hrevision⟩ := hreflects.secret_unchanged hsteady hcheck hsaw
    obtain ⟨i, hi⟩ := hanswers _ hsaw
    have hdata := hrevisions i name secret current hi.symm hcurrent hrevision.symm
    exact ⟨current, hcurrent, hdata.symm⟩
  · intro key fingerprint entry hsteady hloaded
    obtain ⟨row, hrow, hsum⟩ := hreflects.row_unchanged hsteady hcheck hloaded
    obtain ⟨i, hi⟩ := hanswers _ hloaded
    obtain ⟨-, row', hrow', -, -, rfl⟩ := loadSourceCache_eq_some.mp hi.symm
    exact ⟨row, hrow, (hdigests i key row' row hrow' hrow hsum.symm).symm⟩

namespace Sample

/-- A platform on which a link is the password of a sample endpoint. -/
def platform : Platform where
  unicode := Endpoint.Sample.unicode
  sum256 := Endpoint.Sample.sum256
  readers := ⟨fun line _ => .ok ⟨Endpoint.Sample.hysteria line, []⟩, fun _ _ => none⟩
  parseURL _ := none
  marshal _ := []

/-- A Secret with two subscriptions, and its revision. -/
def subscriptions (first revision : Bytes) : StoredSecret where
  uid := ascii "uid"
  resourceVersion := revision
  data := ((∅ : Assoc Bytes Bytes).insert (ascii "a") first).insert (ascii "b") (ascii "new")
  stamped := .inl (by decide)

def target : StoredSecret where
  uid := ascii "uid"
  resourceVersion := ascii "1"
  data := (∅ : Assoc Bytes Bytes).insert (ascii "url") (ascii "https://target")
  stamped := .inl (by decide)

def worldWith (subs : StoredSecret) : World where
  secret name :=
    if name = ascii "subs" then .found subs
    else if name = ascii "target" then .found target
    else .notFound
  table := ∅
  readable := true
  cancelled := false

/-- Two sources with their texts in one Secret. -/
def sharing : ProxyPool where
  namespace_ := ascii "egress"
  name := ascii "pool"
  uid := ascii "pool-uid"
  generation := 1
  resourceVersion := ascii "1"
  sources := [
    { id := ascii "a", secretRef := some ⟨ascii "subs", ascii "a"⟩, format := .uriList },
    { id := ascii "b", secretRef := some ⟨ascii "subs", ascii "b"⟩, format := .uriList }]
  allowInsecureTLS := true

def gateway : ObjectMeta := ⟨ascii "egress", ascii "gateway", ascii "gateway-uid", 1, ascii "1"⟩

def request : RunRequest :=
  ⟨gateway, sharing, 0, ⟨ascii "target", ascii "url"⟩, fun _ => true, none⟩

def momentOf (world : World) : Moment :=
  ⟨fun _ _ => some gateway, fun _ _ => some sharing.meta, world⟩

def older : World := worldWith (subscriptions (ascii "old") (ascii "1"))

def newer : World := worldWith (subscriptions (ascii "new") (ascii "2"))

/-- The Secret changes between the reads of the two sources. -/
def changing (i : Nat) : World := if i = 0 then older else newer

/-- The reads of a run among these worlds. -/
def reading (worlds : Nat → World) : Except RunFailure Prepared × Log :=
  (prepare platform request).run (fun i => (worlds i).answer platform.sum256) []

/-- The inventory has the endpoint of this password, from this source. -/
def uses (prepared : Prepared) (source password : Bytes) : Bool :=
  prepared.pool.inventory.any fun record =>
    record.configuration = Endpoint.Sample.hysteria password &&
      record.provenance.map Provenance.source = [source]

theorem worldWith_subs {subs : StoredSecret} (h : (worldWith subs).secret name = .found secret) :
    name = ascii "subs" ∧ secret = subs ∨ name ≠ ascii "subs" ∧ secret = target := by
  unfold worldWith at h
  dsimp only at h
  split_ifs at h with hsubs htarget
  · exact .inl ⟨hsubs, (Lookup.found.inj h).symm⟩
  · exact .inr ⟨hsubs, (Lookup.found.inj h).symm⟩

theorem unique_changing : UniqueRevisions changing newer := by
  intro i name secret secret' h h' hrevision
  have hworld : changing i = older ∨ changing i = newer := by
    unfold changing
    split_ifs
    · exact .inl rfl
    · exact .inr rfl
  rcases hworld with hworld | hworld
  · rw [hworld] at h
    rcases worldWith_subs h with ⟨hname, rfl⟩ | ⟨hname, rfl⟩
    · rcases worldWith_subs h' with ⟨-, rfl⟩ | ⟨hname', -⟩
      · exact absurd hrevision (by decide)
      · exact absurd hname hname'
    · rcases worldWith_subs h' with ⟨hname', -⟩ | ⟨-, rfl⟩
      · exact absurd hname' hname
      · rfl
  · rw [hworld, h'] at h
    rw [Lookup.found.inj h]

/-- **Two sources that share a Secret.**  The Secret is updated between the reads of the two
sources.  The guard knows the later revision only and passes, while the inventory has the endpoint
of a value that is no longer stored. -/
theorem shared_secret_changed :
    UniqueRevisions changing newer ∧ UniqueDigests platform.sum256 changing newer ∧
    ∃ prepared, (reading changing).1 = .ok prepared ∧
      prepared.guard.check platform.sum256 (momentOf newer) 0 = true ∧
      uses prepared (ascii "k8s-pool-uid-a") (ascii "old") = true ∧
      ∃ current, newer.secret (ascii "subs") = .found current ∧
        current.data.lookup (ascii "a") = some (ascii "new") := by
  obtain ⟨prepared, hrun, hgood⟩ := exists_of_any (x := (reading changing).1)
    (p := fun prepared => prepared.guard.check platform.sum256 (momentOf newer) 0 &&
      uses prepared (ascii "k8s-pool-uid-a") (ascii "old")) (by decide +kernel)
  obtain ⟨hcheck, huses⟩ := Bool.and_eq_true _ _ ▸ hgood
  refine ⟨unique_changing, ?_, prepared, hrun, hcheck, huses, _, rfl, by decide⟩
  intro i key row row' hrow hrow'
  exact nomatch hrow'

/-- A platform that accepts every URL. -/
def openPlatform : Platform :=
  { platform with parseURL := fun _ => some ⟨ascii "https", ascii "host", false, []⟩ }

/-- The row of the HTTP source, validated a nanosecond after 1970. -/
def cachedRow : Row where
  fingerprint := openPlatform.sum256 []
  body := ascii "new"
  bodyDigest := openPlatform.sum256 (ascii "new")
  contentType := []
  etag := []
  lastModified := []
  acceptedAtNs := 1
  validatedAtNs := 1
  body_le := by decide

/-- A source with its text in a Secret, and one with its URL in the same Secret. -/
def mixed : ProxyPool :=
  { sharing with
    sources := [
      { id := ascii "a", secretRef := some ⟨ascii "subs", ascii "a"⟩, format := .uriList },
      { id := ascii "h", http := some { urlSecretRef := ⟨ascii "subs", ascii "b"⟩ },
        format := .uriList }] }

def cachedWorld : World :=
  { newer with table := (∅ : Cache.Table).insert (ascii "pool-uid/h") cachedRow }

def minuteLater : Time := ofUnixNano 1 + Duration.minute

/-- The Secret changes after its first read, the row does not. -/
def updating (i : Nat) : World := { cachedWorld with secret := (changing i).secret }

/-- The reads of a run of the mixed pool meanwhile. -/
def updated : Except RunFailure Prepared × Log :=
  (prepare openPlatform { request with pool := mixed, now := minuteLater }).run
    (fun i => (updating i).answer openPlatform.sum256) []

/-- The rows that are loaded, with the fingerprints. -/
def loads (log : Log) : List (Bytes × Digest) :=
  log.filterMap fun access =>
    match access.1 with
    | .cache key fingerprint => some (key, fingerprint)
    | _ => none

/-- A run during which a Secret is updated uses a cached row.  The guard passes, and what the run
has read of the target and of the row, which have not changed, is stored. -/
theorem unchanged_of_check_updated :
    ∃ prepared, updated.1 = .ok prepared ∧
      prepared.guard.check openPlatform.sum256 (momentOf cachedWorld) minuteLater = true ∧
      uses prepared (ascii "k8s-pool-uid-h") (ascii "new") = true ∧
      (∀ secret, Saw updated.2 (ascii "target") (.found secret) →
        ∃ current, cachedWorld.secret (ascii "target") = .found current ∧
          current.data = secret.data) ∧
      ∀ fingerprint entry, Loaded updated.2 (ascii "pool-uid/h") fingerprint (.ok (some entry)) →
        ∃ row, cachedWorld.table.lookup (ascii "pool-uid/h") = some row ∧
          row.body = entry.body := by
  obtain ⟨prepared, hprepared, hgood⟩ := exists_of_any (x := updated.1)
    (p := fun prepared => prepared.guard.check openPlatform.sum256 (momentOf cachedWorld)
      minuteLater && uses prepared (ascii "k8s-pool-uid-h") (ascii "new")) (by decide +kernel)
  obtain ⟨hcheck, huses⟩ := Bool.and_eq_true _ _ ▸ hgood
  have hrun : updated = (.ok prepared, updated.2) := by rw [← hprepared]
  have hloads : loads updated.2 = [(ascii "pool-uid/h", openPlatform.sum256 [])] := by
    decide +kernel
  have hanswers : ∀ access ∈ updated.2,
      ∃ i, access.2 = (updating i).answer openPlatform.sum256 access.1 :=
    Asking.mem_run fun _ h => nomatch h
  have hsecret : SteadySecret updated.2 (ascii "target") := by
    have htarget : ∀ i, (changing i).secret (ascii "target") = .found target := by
      intro i
      unfold changing
      split_ifs
      · rfl
      · rfl
    intro answer answer' h h' _ _
    obtain ⟨i, hanswer⟩ := hanswers _ h
    obtain ⟨j, hanswer'⟩ := hanswers _ h'
    exact (hanswer.trans (htarget i)).trans (hanswer'.trans (htarget j)).symm
  have hrow : SteadyRow updated.2 (ascii "pool-uid/h") := by
    have honly : ∀ fingerprint answer, Loaded updated.2 (ascii "pool-uid/h") fingerprint answer →
        fingerprint = openPlatform.sum256 [] := by
      intro fingerprint answer h
      have hmem : (ascii "pool-uid/h", fingerprint) ∈ loads updated.2 :=
        List.mem_filterMap.mpr ⟨_, h, rfl⟩
      rw [hloads, List.mem_singleton] at hmem
      exact (Prod.mk.inj hmem).2
    intro fingerprint fingerprint' answer answer' h h'
    obtain rfl := honly _ _ h
    obtain rfl := honly _ _ h'
    obtain ⟨i, hanswer⟩ := hanswers _ h
    obtain ⟨j, hanswer'⟩ := hanswers _ h'
    exact hanswer.trans hanswer'.symm
  have hrevisions : UniqueRevisions updating (momentOf cachedWorld).world := unique_changing
  have hdigests : UniqueDigests openPlatform.sum256 updating cachedWorld := by
    intro i key row row' hrow hrow' _
    rw [Option.some.inj (hrow.symm.trans hrow')]
  have hunchanged := unchanged_of_check hrun hrevisions hdigests (.inl rfl) hcheck
  exact ⟨prepared, hprepared, hcheck, huses, fun secret => hunchanged.1 _ secret hsecret,
    fun fingerprint entry => hunchanged.2 _ fingerprint entry hrow⟩

end Sample

end Egressfox.Pool
