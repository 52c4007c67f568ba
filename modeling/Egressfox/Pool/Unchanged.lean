import Egressfox.Pool.Fresh

/-!
# A snapshot that nothing has changed

A build loads rows by key and fingerprint, and records a row of another fingerprint, or one that is
not consistent, as missing.  The guard looks rows up by key alone, and finds such a row.  So there
are snapshots that the guard refuses although nothing has changed; `check_unchanged_iff` says which.
-/

namespace Egressfox.Pool

open Lib Endpoint Source
open Cache (Row sourceCacheVersion sourceCacheVersion_eq_none sourceCacheVersion_eq_some)
open Checkpoint (ofUnixNano)

variable {P : Platform} {pool : ProxyPool} {world : World} {hasCache : Bool} {now : Time}
  {desired : SubscriptionSource} {http : HTTPSource}

/-! ## The recorded versions -/

/-- The HTTP sources that resolve add a version, under their key. -/
theorem version_iff_resolves {c : Contribution}
    (h : world.eval P (readSource P pool hasCache now desired) = .ok c) {key : Bytes} :
    (∃ version, c.version = some (key, version)) ↔
      ∃ config, Resolves P pool world desired config ∧ key = config.key := by
  constructor
  · rintro ⟨version, hversion⟩
    exact resolves_of_version h hversion
  · rintro ⟨config, hresolves, rfl⟩
    obtain ⟨http, -, -, hhttp, -⟩ := hresolves.spec
    cases outcome_of_readSource hhttp h with
    | unresolved hnone => exact (hnone config hresolves).elim
    | absent hresolves' _ hsome | unusable hresolves' _ _ hsome =>
      obtain rfl := hresolves.unique hresolves'
      exact ⟨_, hsome⟩
    | admitted hfrom hsome =>
      obtain rfl := hresolves.unique hfrom.resolves
      exact ⟨_, hsome⟩

/-- No later source adds a version under this key. -/
def LastVersion (P : Platform) (pool : ProxyPool) (world : World) (hasCache : Bool) (now : Time)
    (after : List SubscriptionSource) (key : Bytes) : Prop :=
  ∀ d ∈ after, ∀ c, world.eval P (readSource P pool hasCache now d) = .ok c →
    ∀ version, c.version ≠ some (key, version)

/-- **The last source that adds a version under a key decides.** -/
theorem lookup_cacheVersions_iff {sources : List SubscriptionSource} {cs : List Contribution}
    (h : Adds P pool world hasCache now sources cs) {key : Bytes} {version : CacheVersion} :
    ∀ s : PoolState, (cs.foldl PoolState.add s).cacheVersions.lookup key = some version ↔
      (∃ before d after c, sources = before ++ d :: after ∧
        world.eval P (readSource P pool hasCache now d) = .ok c ∧
        c.version = some (key, version) ∧ LastVersion P pool world hasCache now after key) ∨
      LastVersion P pool world hasCache now sources key ∧
        s.cacheVersions.lookup key = some version := by
  induction h with
  | nil =>
    intro s
    constructor
    · exact fun hlookup => .inr ⟨fun _ hd => (nomatch hd), hlookup⟩
    · rintro (⟨before, d, after, c, hsplit, -⟩ | ⟨-, hlookup⟩)
      · exact absurd hsplit.symm (List.append_ne_nil_of_right_ne_nil _ (List.cons_ne_nil _ _))
      · exact hlookup
  | @cons d c sources cs hc hrest ih =>
    intro s
    have hadd : (s.add c).cacheVersions.lookup key = some version ↔
        c.version = some (key, version) ∨
          (∀ v, c.version ≠ some (key, v)) ∧ s.cacheVersions.lookup key = some version := by
      change (Assoc.writeAll s.cacheVersions c.version.toList).lookup key = some version ↔ _
      cases hversion : c.version with
      | none => simp [Assoc.writeAll]
      | some entry =>
        obtain ⟨key', version'⟩ := entry
        by_cases hkey : key = key'
        · subst hkey
          simp [Assoc.writeAll]
        · simp [Assoc.writeAll, AList.lookup_insert_ne hkey, Ne.symm hkey]
    have hlast : LastVersion P pool world hasCache now (d :: sources) key ↔
        (∀ v, c.version ≠ some (key, v)) ∧ LastVersion P pool world hasCache now sources key := by
      constructor
      · intro hall
        exact ⟨hall d List.mem_cons_self c hc, fun d' hd' => hall d' (List.mem_cons_of_mem _ hd')⟩
      · rintro ⟨hhead, htail⟩ d' hd' c' hc'
        rcases List.mem_cons.mp hd' with rfl | hd'
        · obtain rfl := Except.ok.inj (hc.symm.trans hc')
          exact hhead
        · exact htail d' hd' c' hc'
    rw [List.foldl_cons, ih, hadd, hlast]
    constructor
    · rintro (⟨before, d', after, c', rfl, hfacts⟩ | ⟨htail, hhead | ⟨hhead, hlookup⟩⟩)
      · exact .inl ⟨d :: before, d', after, c', rfl, hfacts⟩
      · exact .inl ⟨[], d, sources, c, rfl, hc, hhead, htail⟩
      · exact .inr ⟨⟨hhead, htail⟩, hlookup⟩
    · rintro (⟨before, d', after, c', hsplit, hc', hversion, htail⟩ | ⟨⟨hhead, htail⟩, hlookup⟩)
      · cases before with
        | nil =>
          obtain ⟨rfl, rfl⟩ := List.cons.inj hsplit
          obtain rfl := Except.ok.inj (hc.symm.trans hc')
          exact .inr ⟨htail, .inl hversion⟩
        | cons d'' before =>
          obtain ⟨rfl, rfl⟩ := List.cons.inj hsplit
          exact .inl ⟨before, d', after, c', rfl, hc', hversion, htail⟩
      · exact .inr ⟨htail, .inr ⟨hhead, hlookup⟩⟩

/-! ## The checks in an unchanged world -/

/-- The row of a source, if there is one, can be loaded. -/
def RowAgrees (P : Platform) (world : World) (config : HTTPConfig) : Prop :=
  ∀ row, world.table.lookup config.key = some row → Loads P world config row

/-- A row that can be loaded has the digest and the time of its entry as its version. -/
theorem Loads.version {config : HTTPConfig} {row : Row} (h : Loads P world config row) :
    sourceCacheVersion P.sum256 world.table world.readable config.key =
      .ok (some (P.sum256 row.body, ofUnixNano row.validatedAtNs)) := by
  obtain ⟨hsum, haccepted, hvalidated, -⟩ := Cache.Row.consistent_iff.mp h.consistent
  exact sourceCacheVersion_eq_some.mpr
    ⟨h.readable, row, h.stored, haccepted.trans_le hvalidated, hsum, hsum, rfl⟩

/-- The version of a source passes the check exactly if its row agrees. -/
theorem versionUnchanged_of_outcome {c : Contribution} {config : HTTPConfig}
    {version : CacheVersion} {t : Time} (hc : HTTPOutcome P pool world now desired http c)
    (hresolves : Resolves P pool world desired config) (hreadable : world.readable = true)
    (hversion : c.version = some (config.key, version))
    (hunexpired : version.expiresAt ≠ 0 → t < version.expiresAt) :
    versionUnchanged P.sum256 world t config.key version = true ↔ RowAgrees P world config := by
  have hloaded : ∀ row, Loads P world config row → version.present = true →
      version.digest = P.sum256 row.body → version.validatedAt = ofUnixNano row.validatedAtNs →
      (versionUnchanged P.sum256 world t config.key version = true ↔ RowAgrees P world config) := by
    intro row hrow hpresent hdigest hvalidated
    refine iff_of_true ?_ ?_
    · refine versionUnchanged_iff.mpr ⟨hunexpired, .inr ⟨hpresent, ?_⟩⟩
      rw [hrow.version, hdigest, hvalidated]
    · intro row' hrow'
      obtain rfl := Option.some.inj (hrow.stored.symm.trans hrow')
      exact hrow
  cases hc with
  | unresolved hnone => exact (hnone config hresolves).elim
  | absent hresolves' hnone hsome =>
    obtain rfl := hresolves.unique hresolves'
    obtain rfl := (Prod.mk.inj (Option.some.inj (hsome.symm.trans hversion))).2
    constructor
    · intro hunchanged row hrow
      obtain ⟨-, ⟨-, hmissing⟩ | ⟨hpresent, -⟩⟩ := versionUnchanged_iff.mp hunchanged
      · have hmissing := (sourceCacheVersion_eq_none.mp hmissing).2
        exact nomatch hmissing.symm.trans hrow
      · cases hpresent
    · intro hagrees
      refine versionUnchanged_iff.mpr ⟨hunexpired, .inl ⟨rfl, ?_⟩⟩
      refine sourceCacheVersion_eq_none.mpr ⟨hreadable, ?_⟩
      cases hlookup : world.table.lookup config.key with
      | none => rfl
      | some row => exact (hnone row (hagrees row hlookup)).elim
  | @unusable _ row hresolves' hrow _ hsome =>
    obtain rfl := hresolves.unique hresolves'
    obtain rfl := (Prod.mk.inj (Option.some.inj (hsome.symm.trans hversion))).2
    exact hloaded row hrow rfl rfl rfl
  | @admitted _ row snapshot hfrom hsome =>
    obtain rfl := hresolves.unique hfrom.resolves
    obtain rfl := (Prod.mk.inj (Option.some.inj (hsome.symm.trans hversion))).2
    refine hloaded row hfrom.loads ?_ ?_ ?_
    all_goals
      split
      · rfl
      · rfl

/-- The Secrets that a build has recorded pass their check as long as nothing changes. -/
theorem secretUnchanged_of_build {result : PoolResult}
    (hbuild : world.eval P (buildPoolWithCache P pool hasCache now) = .ok result) {name : Bytes}
    {revision : ResourceRevision} (h : result.sourceRevisions.lookup name = some revision) :
    secretUnchanged world name revision = true := by
  obtain ⟨log, hanswers, hreflects⟩ :=
    buildPoolWithCache_reflects.eval (p := buildPoolWithCache P pool hasCache now)
      (world.answer P.sum256)
  rcases (hreflects result hbuild).backed name revision h with ⟨secret, hsaw, rfl⟩ | ⟨hsaw, hzero⟩
  · have hworld : Lookup.found secret = world.secret name := hanswers _ hsaw
    exact secretUnchanged_revision.mpr ⟨secret, hworld.symm, rfl⟩
  · have hworld : Lookup.notFound = world.secret name := hanswers _ hsaw
    have hzero : revision = {} := hzero
    rw [hzero]
    simp [secretUnchanged, hworld.symm]

/-! ## False alarms -/

/-- For every HTTP source that resolves, and behind which no source of the same ID resolves, the
row under its key can be loaded, if there is one: it has the fingerprint of the source and is
consistent. -/
def RowsAgree (P : Platform) (pool : ProxyPool) (world : World) : Prop :=
  ∀ before d after config, pool.sources = before ++ d :: after →
    Resolves P pool world d config →
    (∀ d' ∈ after, d'.id = d.id → ∀ config', ¬Resolves P pool world d' config') →
    RowAgrees P world config

/-- The versions that a build has recorded pass their check exactly if the rows agree. -/
theorem versions_unchanged_iff {cs : List Contribution} {t : Time}
    (h : Adds P pool world hasCache now pool.sources cs) (hreadable : world.readable = true)
    (hunexpired : ∀ key version,
      (cs.foldl PoolState.add {}).cacheVersions.lookup key = some version →
      version.expiresAt ≠ 0 → t < version.expiresAt) :
    (∀ key version, (cs.foldl PoolState.add {}).cacheVersions.lookup key = some version →
      versionUnchanged P.sum256 world t key version = true) ↔ RowsAgree P pool world := by
  constructor
  · intro hunchanged before d after config hsplit hresolves hlast
    have hd : d ∈ pool.sources := by simp [hsplit]
    obtain ⟨c, -, hc⟩ := h.exists_contribution hd
    obtain ⟨version, hversion⟩ := (version_iff_resolves hc).mpr ⟨config, hresolves, rfl⟩
    obtain ⟨http, -, -, hhttp, -, hkey, -⟩ := hresolves.spec
    have hlast : LastVersion P pool world hasCache now after config.key := by
      intro d' hd' c' hc' version' hversion'
      obtain ⟨config', hresolves', hkey'⟩ := resolves_of_version hc' hversion'
      obtain ⟨-, -, -, -, -, hkeyd', -⟩ := hresolves'.spec
      refine hlast d' hd' (id_eq_of_cacheKey_eq pool ?_) config' hresolves'
      rw [← hkeyd', ← hkey', hkey]
    have hlookup := (lookup_cacheVersions_iff h {}).mpr
      (.inl ⟨before, d, after, c, hsplit, hc, hversion, hlast⟩)
    exact (versionUnchanged_of_outcome (outcome_of_readSource hhttp hc) hresolves hreadable hversion
      (hunexpired _ _ hlookup)).mp (hunchanged _ _ hlookup)
  · intro hagree key version hlookup
    rcases (lookup_cacheVersions_iff h {}).mp hlookup with
      ⟨before, d, after, c, hsplit, hc, hversion, hlast⟩ | ⟨-, hnone⟩
    · obtain ⟨config, hresolves, rfl⟩ := resolves_of_version hc hversion
      obtain ⟨http, -, -, hhttp, -, hkey, -⟩ := hresolves.spec
      refine (versionUnchanged_of_outcome (outcome_of_readSource hhttp hc) hresolves hreadable
        hversion (hunexpired _ _ hlookup)).mpr (hagree before d after config hsplit hresolves ?_)
      intro d' hd' hid config' hresolves'
      have hmem : d' ∈ pool.sources := by simp [hsplit, hd']
      obtain ⟨c', -, hc'⟩ := h.exists_contribution hmem
      obtain ⟨version', hversion'⟩ := (version_iff_resolves hc').mpr ⟨config', hresolves', rfl⟩
      obtain ⟨-, -, -, -, -, hkeyd', -⟩ := hresolves'.spec
      have hsame : config'.key = config.key := by
        rw [hkeyd', hkey, ProxyPool.cacheKey, ProxyPool.cacheKey, hid]
      rw [hsame] at hversion'
      exact hlast d' hd' c' hc' version' hversion'
    · cases hnone

/-- **When the guard refuses a snapshot that nothing has changed.**  Neither the Kubernetes objects
nor the rows have changed since the build, and no entry that contributed has expired.  Then the
guard passes if and only if the rows agree with the sources. -/
theorem check_unchanged_iff {result : PoolResult} {gateway : ObjectMeta} {guard : SnapshotGuard}
    {moment : Moment} {t : Time}
    (hbuild : world.eval P (buildPoolWithCache P pool hasCache now) = .ok result)
    (hguard : newSnapshotGuard gateway pool result.sourceRevisions = some guard)
    (hgateway : moment.gateway gateway.namespace_ gateway.name = some gateway)
    (hpool : moment.pool pool.namespace_ pool.name = some pool.meta)
    (hworld : moment.world = world) (hreadable : world.readable = true)
    (hunexpired : ∀ key version, result.cacheVersions.lookup key = some version →
      version.expiresAt ≠ 0 → t < version.expiresAt) :
    (guard.bindCache result.cacheVersions).check P.sum256 moment t = true ↔
      RowsAgree P pool world := by
  have hsecrets : ∀ name revision, result.sourceRevisions.lookup name = some revision →
      secretUnchanged world name revision = true :=
    fun name revision hlookup => secretUnchanged_of_build hbuild hlookup
  obtain ⟨-, cs, hcs, rfl⟩ := build_eq_ok.mp hbuild
  rw [← versions_unchanged_iff hcs hreadable hunexpired, SnapshotGuard.check_iff]
  unfold newSnapshotGuard at hguard
  split_ifs at hguard
  obtain rfl := Option.some.inj hguard
  subst hworld
  have hsame : ∀ object : ObjectMeta, sameRevision object (some object) = true := by
    intro object
    simp [sameRevision]
  constructor
  · rintro ⟨-, -, -, hversions⟩
    exact hversions
  · intro hversions
    refine ⟨?_, ?_, hsecrets, hversions⟩
    · change sameRevision gateway (moment.gateway gateway.namespace_ gateway.name) = true
      rw [hgateway]
      exact hsame gateway
    · change sameRevision pool.meta (moment.pool pool.namespace_ pool.name) = true
      rw [hpool]
      exact hsame pool.meta

namespace Sample

/-- The entry that was saved for an earlier URL of the HTTP source. -/
def formerEntry : Cache.SourceCache where
  key := ascii "pool-uid/h"
  fingerprint := Digest.zero
  body := ascii "old"
  contentType := []
  etag := []
  lastModified := []
  acceptedAt := ofUnixNano 1
  validatedAt := ofUnixNano 1

/-- The URL of the HTTP source has changed since its row was saved. -/
def rotatedWorld : World :=
  { newer with
    table := (Cache.saveSourceCache openPlatform.sum256 ∅ .done formerEntry).1 }

/-- The build of the mixed pool, and the check of its guard in the same world. -/
def building (world : World) : Except PoolFailure PoolResult :=
  world.eval openPlatform (buildPoolWithCache openPlatform mixed true minuteLater)

def guarding (result : PoolResult) : SnapshotGuard :=
  ⟨gateway, mixed.meta, result.sourceRevisions, result.cacheVersions⟩

/-- All versions are unexpired a minute after the validation. -/
def unexpired (result : PoolResult) : Bool :=
  Assoc.all (fun _ version => version.expiresAt = 0 || decide (minuteLater < version.expiresAt))
    result.cacheVersions

/-- **A URL was rotated.**  The row of the former URL is no row for the source, so the build
records that there is none, and the guard, which finds one, refuses the snapshot, although nothing
has changed since the build. -/
theorem rotated_url_refused :
    ∃ result guard, building rotatedWorld = .ok result ∧ result.inventory ≠ [] ∧
      unexpired result = true ∧
      newSnapshotGuard gateway mixed result.sourceRevisions = some guard ∧
      (guard.bindCache result.cacheVersions).check openPlatform.sum256 (momentOf rotatedWorld)
        minuteLater = false := by
  obtain ⟨result, hbuild, hgood⟩ := exists_of_any (x := building rotatedWorld)
    (p := fun result => decide (result.inventory ≠ []) && unexpired result &&
      !(guarding result).check openPlatform.sum256 (momentOf rotatedWorld) minuteLater)
    (by decide +kernel)
  simp only [Bool.and_eq_true, decide_eq_true_eq, Bool.not_eq_true'] at hgood
  obtain ⟨⟨hinventory, hunexpired⟩, hcheck⟩ := hgood
  exact ⟨result, _, hbuild, hinventory, hunexpired, rfl, hcheck⟩

/-- With the row of the present URL the guard passes. -/
theorem check_unchanged_iff_current :
    ∃ result, building cachedWorld = .ok result ∧ result.inventory ≠ [] ∧
      (guarding result).check openPlatform.sum256 (momentOf cachedWorld) minuteLater = true ∧
      RowsAgree openPlatform mixed cachedWorld := by
  obtain ⟨result, hbuild, hgood⟩ := exists_of_any (x := building cachedWorld)
    (p := fun result => decide (result.inventory ≠ []) && unexpired result &&
      (guarding result).check openPlatform.sum256 (momentOf cachedWorld) minuteLater)
    (by decide +kernel)
  simp only [Bool.and_eq_true, decide_eq_true_eq] at hgood
  obtain ⟨⟨hinventory, hunexpired⟩, hcheck⟩ := hgood
  have hunexpired : ∀ key version, result.cacheVersions.lookup key = some version →
      version.expiresAt ≠ 0 → minuteLater < version.expiresAt := by
    intro key version hlookup hne
    have htest := Assoc.all_iff.mp hunexpired key version hlookup
    rw [Bool.or_eq_true, decide_eq_true_eq, decide_eq_true_eq] at htest
    exact htest.resolve_left hne
  have hguard : newSnapshotGuard gateway mixed result.sourceRevisions =
      some ⟨gateway, mixed.meta, result.sourceRevisions, ∅⟩ := rfl
  have hgateway : (momentOf cachedWorld).gateway gateway.namespace_ gateway.name =
      some gateway := rfl
  have hagree := check_unchanged_iff hbuild hguard hgateway rfl rfl rfl hunexpired
  exact ⟨result, hbuild, hinventory, hcheck, hagree.mp hcheck⟩

end Sample

end Egressfox.Pool
