import Egressfox.Pool.Build

/-!
# A build in a world that stands still

Without writes between its reads a build is a function of the world.  Here is what each source
adds to it: a source supplies a snapshot (`Supplies`), from its Secret or from its row of the
cache, or it supplies nothing; and the result is made from what the sources add, in their order
(`build_eq_ok`).
-/

namespace Egressfox.Pool

open Lib Endpoint Source
open Cache (SourceCache Row maxSourceStale loadSourceCache loadSourceCache_eq_some)
open Checkpoint (ofUnixNano)

variable {P : Platform} {pool : ProxyPool} {world : World} {hasCache : Bool} {now : Time}
  {desired : SubscriptionSource} {http : HTTPSource}

/-- The value of a program in a world. -/
def World.eval (P : Platform) (world : World) {α : Type} (p : Reading α) : α :=
  Asking.eval (world.answer P.sum256) p

variable {α : Type} {config : HTTPConfig} {row : Row} {snapshot : Snapshot} {c : Contribution}

@[simp] theorem World.eval_bind {β : Type} (p : Reading α) (f : α → Reading β) :
    world.eval P (p >>= f) = world.eval P (f (world.eval P p)) :=
  Asking.eval_bind _ p f

@[simp] theorem World.eval_attempt {ε β : Type} (p : Reading (Except ε α))
    (f : α → Reading (Except ε β)) :
    world.eval P (p.attempt f) = world.eval P p >>= fun a => world.eval P (f a) :=
  Asking.eval_attempt _ p f

@[simp] theorem World.eval_getSecret (name : Bytes) :
    world.eval P (getSecret name) = world.secret name :=
  rfl

@[simp] theorem World.eval_loadCache (key : Bytes) (fingerprint : Digest) :
    world.eval P (loadCache key fingerprint) =
      loadSourceCache P.sum256 world.table world.readable key fingerprint :=
  rfl

@[simp] theorem World.eval_contextErr : world.eval P contextErr = world.cancelled := rfl

/-! ## Resolved sources -/

/-- The references of a source can be resolved. -/
def Resolves (P : Platform) (pool : ProxyPool) (world : World) (desired : SubscriptionSource)
    (config : HTTPConfig) : Prop :=
  world.eval P (resolveHTTP P pool desired) = .ok config

theorem newSourceID_eq_ok {value id : Bytes} (h : newSourceID value = .ok id) : id = value := by
  simp only [newSourceID, validateProvenanceID, ite_invalid_eq_ok] at h
  exact (Except.ok.inj h.2.2).symm

/-- A resolved source is an HTTP source that passes the checks between the reads, and its key and
source ID are those of the source. -/
theorem Resolves.spec (h : Resolves P pool world desired config) :
    ∃ http authorization context, desired.http = some http ∧
      requestContext P pool desired http authorization = .ok context ∧
      config.key = pool.cacheKey desired ∧ config.sourceID = pool.sourceName desired := by
  unfold Resolves resolveHTTP at h
  split at h
  · cases h
  next http hhttp =>
    split at h
    · cases h
    split at h
    · cases h
    next id hid =>
      rw [World.eval_attempt] at h
      obtain ⟨⟨url, revisions⟩, -, h⟩ := bind_eq_ok.mp h
      rw [World.eval_attempt] at h
      obtain ⟨⟨authorization, revisions⟩, -, h⟩ := bind_eq_ok.mp h
      dsimp only at h
      split at h
      · cases h
      next context hcontext =>
        rw [World.eval_attempt] at h
        obtain ⟨⟨headers, revisions⟩, -, h⟩ := bind_eq_ok.mp h
        dsimp only at h
        split at h
        · cases h
        obtain rfl := Except.ok.inj h
        exact ⟨http, authorization, _, hhttp, hcontext, rfl, newSourceID_eq_ok hid⟩

/-! ## What a source supplies -/

/-- A row of the cache that `LoadSourceCache` returns for a resolved source: it has the fingerprint
of the source and is consistent. -/
structure Loads (P : Platform) (world : World) (config : HTTPConfig) (row : Row) : Prop where
  readable : world.readable = true
  stored : world.table.lookup config.key = some row
  current : row.fingerprint = config.fingerprint
  consistent : row.consistent P.sum256 = true

theorem loads_iff {entry : SourceCache} :
    loadSourceCache P.sum256 world.table world.readable config.key config.fingerprint =
      .ok (some entry) ↔ ∃ row, Loads P world config row ∧ entry = row.entry config.key := by
  rw [loadSourceCache_eq_some]
  constructor
  · rintro ⟨hreadable, row, hstored, hcurrent, hconsistent, hentry⟩
    exact ⟨row, ⟨hreadable, hstored, hcurrent, hconsistent⟩, hentry⟩
  · rintro ⟨row, h, hentry⟩
    exact ⟨h.readable, row, h.stored, h.current, h.consistent, hentry⟩

theorem Loads.unique {row' : Row} (h : Loads P world config row) (h' : Loads P world config row') :
    row = row' :=
  Option.some.inj (h.stored.symm.trans h'.stored)

/-- A row of the cache from which an HTTP source supplies a snapshot: it can be loaded, it is
neither from the future nor expired, and the parser admits its body. -/
structure FromCache (P : Platform) (pool : ProxyPool) (world : World) (now : Time)
    (desired : SubscriptionSource) (http : HTTPSource) (config : HTTPConfig) (row : Row)
    (snapshot : Snapshot) : Prop where
  isHTTP : desired.http = some http
  resolves : Resolves P pool world desired config
  loads : Loads P world config row
  started : ofUnixNano row.validatedAtNs - 5 * Duration.minute ≤ now
  unexpired : now < ofUnixNano row.validatedAtNs + maxSourceStale http.maxStale
  admitted : (admitPayload P pool desired config.sourceID row.body world.cancelled).map Prod.fst =
    some snapshot

/-- A Secret from which a source supplies a snapshot. -/
structure FromSecret (P : Platform) (pool : ProxyPool) (world : World)
    (desired : SubscriptionSource) (ref : SecretKeyReference) (secret : StoredSecret) (data : Bytes)
    (snapshot : Snapshot) : Prop where
  isSecret : desired.http = none
  reference : desired.secretRef = some ref
  read : world.secret ref.name = .found secret
  value : secret.data.lookup ref.key = some data
  admitted : (admitPayload P pool desired (pool.sourceName desired) data world.cancelled).map
    Prod.fst = some snapshot

theorem FromSecret.unique {ref ref' : SecretKeyReference} {secret secret' : StoredSecret}
    {data data' : Bytes} {snapshot' : Snapshot}
    (h : FromSecret P pool world desired ref secret data snapshot)
    (h' : FromSecret P pool world desired ref' secret' data' snapshot') : snapshot = snapshot' := by
  obtain rfl := Option.some.inj (h.reference.symm.trans h'.reference)
  obtain rfl := Lookup.found.inj (h.read.symm.trans h'.read)
  obtain rfl := Option.some.inj (h.value.symm.trans h'.value)
  exact Option.some.inj (h.admitted.symm.trans h'.admitted)

/-- The time at which a row expires. -/
def expiry (http : HTTPSource) (row : Row) : Time :=
  ofUnixNano row.validatedAtNs + maxSourceStale http.maxStale

/-- What an HTTP source adds, by what became of its row. -/
inductive HTTPOutcome (P : Platform) (pool : ProxyPool) (world : World) (now : Time)
    (desired : SubscriptionSource) (http : HTTPSource) : Contribution → Prop where
  | unresolved {c : Contribution} : (∀ config, ¬Resolves P pool world desired config) →
      c.version = none → c.snapshot = none → c.expiry = none →
      HTTPOutcome P pool world now desired http c
  | absent {c : Contribution} {config : HTTPConfig} : Resolves P pool world desired config →
      (∀ row, ¬Loads P world config row) →
      c.version = some (config.key, {}) → c.snapshot = none → c.expiry = none →
      HTTPOutcome P pool world now desired http c
  | unusable {c : Contribution} {config : HTTPConfig} {row : Row} :
      Resolves P pool world desired config →
      Loads P world config row →
      (∀ snapshot, ¬FromCache P pool world now desired http config row snapshot) →
      c.version = some (config.key, versionOf P config (row.entry config.key)) →
      c.snapshot = none → c.expiry = none → HTTPOutcome P pool world now desired http c
  | admitted {c : Contribution} {config : HTTPConfig} {row : Row} {snapshot : Snapshot} :
      FromCache P pool world now desired http config row snapshot →
      c.version = some (config.key,
        if snapshot.records.length > 0 then
          { versionOf P config (row.entry config.key) with expiresAt := expiry http row }
        else versionOf P config (row.entry config.key)) →
      c.snapshot = some snapshot → c.expiry = some (expiry http row) →
      HTTPOutcome P pool world now desired http c

theorem readHTTPSource_outcome (hhttp : desired.http = some http)
    (h : world.eval P (readHTTPSource P pool desired http now) = .ok c) :
    HTTPOutcome P pool world now desired http c := by
  unfold readHTTPSource at h
  rw [World.eval_attempt] at h
  obtain ⟨recorded, -, h⟩ := bind_eq_ok.mp h
  rw [World.eval_bind] at h
  cases hresolve : world.eval P (resolveHTTP P pool desired) with
  | error code =>
    rw [hresolve] at h
    obtain rfl := Except.ok.inj h
    refine .unresolved (fun config hconfig => ?_) rfl rfl rfl
    exact nomatch hresolve.symm.trans hconfig
  | ok config =>
    rw [hresolve] at h
    dsimp only at h
    rw [World.eval_bind, World.eval_loadCache] at h
    cases hload : loadSourceCache P.sum256 world.table world.readable config.key
        config.fingerprint with
    | error code =>
      rw [hload] at h
      obtain rfl := Except.ok.inj h
      refine .absent hresolve (fun row hrow => ?_) rfl rfl rfl
      exact nomatch hload.symm.trans (loads_iff.mpr ⟨row, hrow, rfl⟩)
    | ok found =>
      cases found with
      | none =>
        rw [hload] at h
        obtain rfl := Except.ok.inj h
        refine .absent hresolve (fun row hrow => ?_) rfl rfl rfl
        exact nomatch hload.symm.trans (loads_iff.mpr ⟨row, hrow, rfl⟩)
      | some entry =>
        obtain ⟨row, hrow, rfl⟩ := loads_iff.mp hload
        rw [hload] at h
        dsimp only at h
        rw [World.eval_bind] at h
        unfold useEntry at h
        dsimp only at h
        split at h
        next hfuture =>
          obtain rfl := Except.ok.inj h
          refine .unusable hresolve hrow (fun snapshot hs => ?_) rfl rfl rfl
          exact absurd hfuture (not_lt.mpr hs.started)
        next hfuture =>
          split at h
          next hexpired =>
            obtain rfl := Except.ok.inj h
            refine .unusable hresolve hrow (fun snapshot hs => ?_) rfl rfl rfl
            rw [Bool.not_eq_true', decide_eq_false_iff_not] at hexpired
            exact hexpired hs.unexpired
          next hexpired =>
            rw [Bool.not_eq_true', decide_eq_false_iff_not, not_not] at hexpired
            rw [World.eval_bind, World.eval_contextErr] at h
            cases hadmitted : admitPayload P pool desired config.sourceID
                (row.entry config.key).body world.cancelled with
            | none =>
              rw [hadmitted] at h
              obtain rfl := Except.ok.inj h
              refine .unusable hresolve hrow (fun snapshot hs => ?_) rfl rfl rfl
              exact nomatch hadmitted ▸ hs.admitted
            | some admitted =>
              rw [hadmitted] at h
              obtain rfl := Except.ok.inj h
              refine .admitted ⟨hhttp, hresolve, hrow, not_lt.mp hfuture, hexpired, ?_⟩ rfl rfl rfl
              exact congrArg (Option.map Prod.fst) hadmitted

theorem readSecretSource_fromSecret {ref : SecretKeyReference} (hhttp : desired.http = none)
    (href : desired.secretRef = some ref)
    (h : world.eval P (readSecretSource P pool desired ref) = .ok c) :
    c.version = none ∧ c.expiry = none ∧ ∃ secret data snapshot, c.snapshot = some snapshot ∧
      FromSecret P pool world desired ref secret data snapshot := by
  unfold readSecretSource at h
  rw [World.eval_bind, World.eval_getSecret] at h
  split at h
  next secret hsecret =>
    split at h
    · cases h
    next data hdata =>
      split at h
      · cases h
      next id hid =>
        obtain rfl := newSourceID_eq_ok hid
        split at h
        · cases h
        next inline hinline =>
          rw [World.eval_bind, World.eval_contextErr] at h
          split at h
          · cases h
          next payload hpayload =>
            split at h
            · cases h
            next snapshot report hparse =>
              split at h
              · cases h
              next hacceptable =>
                obtain rfl := Except.ok.inj h
                refine ⟨rfl, rfl, secret, data, snapshot, rfl, hhttp, href, hsecret, hdata, ?_⟩
                rw [Bool.not_eq_true', Bool.not_eq_false] at hacceptable
                simp [admitPayload, hinline, hpayload, hparse, hacceptable]
  · cases h

/-- A snapshot that a source supplies. -/
inductive Supplies (P : Platform) (pool : ProxyPool) (world : World) (now : Time)
    (desired : SubscriptionSource) : Snapshot → Prop where
  | secret {ref : SecretKeyReference} {secret : StoredSecret} {data : Bytes}
      {snapshot : Snapshot} : FromSecret P pool world desired ref secret data snapshot →
      Supplies P pool world now desired snapshot
  | cache {http : HTTPSource} {config : HTTPConfig} {row : Row} {snapshot : Snapshot} :
      FromCache P pool world now desired http config row snapshot →
      Supplies P pool world now desired snapshot

theorem Resolves.unique {config' : HTTPConfig} (h : Resolves P pool world desired config)
    (h' : Resolves P pool world desired config') : config = config' :=
  Except.ok.inj (h.symm.trans h')

/-- An HTTP source supplies from one row only. -/
theorem FromCache.unique {http' : HTTPSource} {config' : HTTPConfig} {row' : Row}
    {snapshot' : Snapshot} (h : FromCache P pool world now desired http config row snapshot)
    (h' : FromCache P pool world now desired http' config' row' snapshot') :
    http = http' ∧ config = config' ∧ row = row' ∧ snapshot = snapshot' := by
  obtain rfl := Option.some.inj (h.isHTTP.symm.trans h'.isHTTP)
  obtain rfl := h.resolves.unique h'.resolves
  obtain rfl := h.loads.unique h'.loads
  exact ⟨rfl, rfl, rfl, Option.some.inj (h.admitted.symm.trans h'.admitted)⟩

/-- The outcome of an HTTP source whose row can be used. -/
theorem HTTPOutcome.of_fromCache (hc : HTTPOutcome P pool world now desired http c)
    (h : FromCache P pool world now desired http config row snapshot) :
    c.version = some (config.key,
        if snapshot.records.length > 0 then
          { versionOf P config (row.entry config.key) with expiresAt := expiry http row }
        else versionOf P config (row.entry config.key)) ∧
      c.snapshot = some snapshot ∧ c.expiry = some (expiry http row) := by
  cases hc with
  | unresolved hresolves => exact (hresolves config h.resolves).elim
  | absent hresolves hnone =>
    obtain rfl := hresolves.unique h.resolves
    exact (hnone row h.loads).elim
  | unusable hresolves hrow hnone =>
    obtain rfl := hresolves.unique h.resolves
    obtain rfl := hrow.unique h.loads
    exact (hnone snapshot h).elim
  | admitted h' hversion hsnapshot hexpiry =>
    obtain ⟨-, rfl, rfl, rfl⟩ := h.unique h'
    exact ⟨hversion, hsnapshot, hexpiry⟩

/-- What the parser admits belongs to the source. -/
theorem admitPayload_source {sourceID data : Bytes} {cancelled : Bool}
    (h : (admitPayload P pool desired sourceID data cancelled).map Prod.fst = some snapshot) :
    snapshot.source = sourceID ∧ FromPlaces (fun found _ => found = sourceID) snapshot.records := by
  obtain ⟨⟨snapshot', report⟩, hadmitted, rfl⟩ := Option.map_eq_some_iff.mp h
  obtain ⟨inline, hinline, hadmitted⟩ := Option.bind_eq_some_iff.mp hadmitted
  obtain ⟨payload, hpayload, hadmitted⟩ := Option.bind_eq_some_iff.mp hadmitted
  obtain ⟨⟨snapshot, report⟩, hparse, hadmitted⟩ := Option.bind_eq_some_iff.mp hadmitted
  have hsource : payload.source = sourceID := by
    unfold newInline at hinline
    split_ifs at hinline
    obtain ⟨limits, -, rfl⟩ := Option.map_eq_some_iff.mp hinline
    unfold Inline.acquire at hpayload
    split_ifs at hpayload
    obtain rfl := Option.some.inj hpayload
    rfl
  dsimp only at hadmitted
  split_ifs at hadmitted
  obtain ⟨rfl, rfl⟩ := Prod.mk.inj (Option.some.inj hadmitted)
  unfold parseSource at hparse
  split at hparse
  · cases hparse
  next format =>
    rw [← hsource]
    exact parse_eq_ok (toOption_eq_some_iff.mp hparse)

theorem Supplies.source (h : Supplies P pool world now desired snapshot) :
    snapshot.source = pool.sourceName desired ∧
      FromPlaces (fun found _ => found = pool.sourceName desired) snapshot.records := by
  cases h with
  | secret h => exact admitPayload_source h.admitted
  | cache h =>
    obtain ⟨-, -, -, -, -, -, hid⟩ := h.resolves.spec
    rw [← hid]
    exact admitPayload_source h.admitted

/-- **A source adds the snapshot that it supplies**, and no other. -/
theorem snapshot_eq_some_iff (h : world.eval P (readSource P pool hasCache now desired) = .ok c) :
    c.snapshot = some snapshot ↔ Supplies P pool world now desired snapshot := by
  unfold readSource at h
  split at h
  next http hhttp =>
    split at h
    · cases h
    have houtcome := readHTTPSource_outcome hhttp h
    constructor
    · intro hsnapshot
      cases houtcome with
      | unresolved _ _ hnone | absent _ _ _ hnone | unusable _ _ _ _ hnone =>
        exact nomatch hnone.symm.trans hsnapshot
      | admitted hfrom _ hsome =>
        obtain rfl := Option.some.inj (hsome.symm.trans hsnapshot)
        exact .cache hfrom
    · intro hsupplies
      cases hsupplies with
      | secret hfrom => exact nomatch hhttp.symm.trans hfrom.isSecret
      | cache hfrom =>
        obtain rfl := Option.some.inj (hhttp.symm.trans hfrom.isHTTP)
        exact (houtcome.of_fromCache hfrom).2.1
  next hhttp =>
    split at h
    · cases h
    next ref href =>
      obtain ⟨-, -, secret, data, snapshot', hsnapshot', hfrom⟩ :=
        readSecretSource_fromSecret hhttp href h
      constructor
      · intro hsnapshot
        obtain rfl := Option.some.inj (hsnapshot'.symm.trans hsnapshot)
        exact .secret hfrom
      · intro hsupplies
        cases hsupplies with
        | secret hfrom' =>
          rw [hsnapshot', hfrom.unique hfrom']
        | cache hfrom' => exact nomatch hhttp.symm.trans hfrom'.isHTTP

/-! ## The result -/

/-- What the sources add, one by one. -/
abbrev Adds (P : Platform) (pool : ProxyPool) (world : World) (hasCache : Bool) (now : Time) :
    List SubscriptionSource → List Contribution → Prop :=
  List.Forall₂ fun desired c => world.eval P (readSource P pool hasCache now desired) = .ok c

theorem readSources_eq_ok {sources : List SubscriptionSource} {s s' : PoolState} :
    world.eval P (readSources P pool hasCache now sources s) = .ok s' ↔
      ∃ cs, Adds P pool world hasCache now sources cs ∧ s' = cs.foldl PoolState.add s := by
  induction sources generalizing s with
  | nil =>
    constructor
    · intro h
      exact ⟨[], .nil, (Except.ok.inj h).symm⟩
    · rintro ⟨cs, hcs, rfl⟩
      cases hcs
      rfl
  | cons desired sources ih =>
    unfold readSources
    rw [World.eval_attempt, bind_eq_ok]
    constructor
    · rintro ⟨c, hc, h⟩
      obtain ⟨cs, hcs, rfl⟩ := ih.mp h
      exact ⟨c :: cs, .cons hc hcs, rfl⟩
    · rintro ⟨cs, hcs, rfl⟩
      cases hcs with
      | cons hc hcs => exact ⟨_, hc, ih.mpr ⟨_, hcs, rfl⟩⟩

/-- **The result of a build** is made from what the sources add. -/
theorem build_eq_ok {result : PoolResult} :
    world.eval P (buildPoolWithCache P pool hasCache now) = .ok result ↔
      (pool.namespace_ ≠ [] ∧ pool.uid ≠ [] ∧ pool.sources ≠ []) ∧
      ∃ cs, Adds P pool world hasCache now pool.sources cs ∧
        result = (cs.foldl PoolState.add {}).result P := by
  unfold buildPoolWithCache
  split
  next hbad =>
    constructor
    · intro h
      cases h
    · rintro ⟨⟨hnamespace, huid, hsources⟩, -⟩
      simp [hnamespace, huid, hsources] at hbad
  next hgood =>
    rw [World.eval_attempt, bind_eq_ok]
    constructor
    · rintro ⟨s, hs, h⟩
      obtain ⟨cs, hcs, rfl⟩ := readSources_eq_ok.mp hs
      refine ⟨by simpa [and_assoc] using hgood, cs, hcs, (Except.ok.inj h).symm⟩
    · rintro ⟨-, cs, hcs, rfl⟩
      exact ⟨_, readSources_eq_ok.mpr ⟨cs, hcs, rfl⟩, rfl⟩

/-- The snapshots of the contributions, by source. -/
def snapshotWrites (cs : List Contribution) : List (Bytes × Snapshot) :=
  cs.flatMap fun c => c.snapshot.toList.map fun snapshot => (snapshot.source, snapshot)

/-- The versions of the contributions, by key. -/
def versionWrites (cs : List Contribution) : List (Bytes × CacheVersion) :=
  cs.flatMap fun c => c.version.toList

theorem set_foldl_add (cs : List Contribution) (s : PoolState) :
    (cs.foldl PoolState.add s).set = Assoc.writeAll s.set (snapshotWrites cs) := by
  induction cs generalizing s with
  | nil => rfl
  | cons c cs ih =>
    rw [List.foldl_cons, ih]
    exact (Assoc.writeAll_append s.set _ (snapshotWrites cs)).symm

theorem cacheVersions_foldl_add (cs : List Contribution) (s : PoolState) :
    (cs.foldl PoolState.add s).cacheVersions =
      Assoc.writeAll s.cacheVersions (versionWrites cs) := by
  induction cs generalizing s with
  | nil => rfl
  | cons c cs ih =>
    rw [List.foldl_cons, ih]
    exact (Assoc.writeAll_append s.cacheVersions _ (versionWrites cs)).symm

theorem nextCacheExpiry_foldl_add (cs : List Contribution) (s : PoolState) :
    (cs.foldl PoolState.add s).nextCacheExpiry =
      (cs.filterMap Contribution.expiry).foldl earlier s.nextCacheExpiry := by
  induction cs generalizing s with
  | nil => rfl
  | cons c cs ih =>
    rw [List.foldl_cons, ih, List.filterMap_cons, PoolState.add]
    cases c.expiry with
    | none => rfl
    | some expires => rfl

end Egressfox.Pool
