import Egressfox.Pool.Contribution
import Egressfox.Pool.Guard

/-!
# Only current subscriptions are used

For a pool with distinct source IDs: every relationship of the inventory comes from a snapshot
that a source supplied in this run, an HTTP source that supplies none is as good as not listed, and
once the guard is bound to a selection it does not pass after the expiry of a selected source.

Taking a source out of the pool could change what becomes of the others, because `ResolveHTTP`
compares the client identities of all HTTP sources.  It does not for a source that resolves: its
own comparison has already found no conflict (`readSource_without`).
-/

namespace Egressfox.Pool

open Lib Endpoint Source
open Cache (Row maxSourceStale maxSourceStale_pos)
open Checkpoint (ofUnixNano)

variable {P : Platform} {pool : ProxyPool} {world : World} {hasCache : Bool} {now : Time}
  {desired : SubscriptionSource} {http : HTTPSource}

/-- A relationship of a snapshot that the source supplies. -/
def SuppliedAt (P : Platform) (pool : ProxyPool) (world : World) (now : Time)
    (desired : SubscriptionSource) (source record : Bytes) : Prop :=
  ∃ snapshot, Supplies P pool world now desired snapshot ∧
    ∃ r ∈ snapshot.records, ∃ q ∈ r.provenance, q.source = source ∧ q.record = record

theorem SuppliedAt.source {source record : Bytes}
    (h : SuppliedAt P pool world now desired source record) :
    source = pool.sourceName desired := by
  obtain ⟨snapshot, hsupplies, r, hr, q, hq, rfl, -⟩ := h
  exact hsupplies.source.2 r hr q hq

/-! ## Contributions and sources -/

variable {sources : List SubscriptionSource} {cs : List Contribution} {c : Contribution}
  {d d' other : SubscriptionSource} {config : HTTPConfig}

theorem Adds.exists_source (h : Adds P pool world hasCache now sources cs) (hc : c ∈ cs) :
    ∃ d ∈ sources, world.eval P (readSource P pool hasCache now d) = .ok c := by
  induction h with
  | nil => cases hc
  | @cons d c' sources cs hd hrest ih =>
    rcases List.mem_cons.mp hc with rfl | hc
    · exact ⟨d, List.mem_cons_self, hd⟩
    · obtain ⟨d', hd', heval⟩ := ih hc
      exact ⟨d', List.mem_cons_of_mem _ hd', heval⟩

theorem Adds.exists_contribution (h : Adds P pool world hasCache now sources cs)
    (hd : d ∈ sources) :
    ∃ c ∈ cs, world.eval P (readSource P pool hasCache now d) = .ok c := by
  induction h with
  | nil => cases hd
  | @cons d' c sources cs hc hrest ih =>
    rcases List.mem_cons.mp hd with rfl | hd
    · exact ⟨c, List.mem_cons_self, hc⟩
    · obtain ⟨c', hc', heval⟩ := ih hd
      exact ⟨c', List.mem_cons_of_mem _ hc', heval⟩

/-- Sources with an ID in common are the same. -/
theorem eq_of_id_eq (hids : (pool.sources.map SubscriptionSource.id).Nodup) (hd : d ∈ pool.sources)
    (hd' : d' ∈ pool.sources) (h : d.id = d'.id) : d = d' :=
  List.inj_on_of_nodup_map hids hd hd' h

theorem id_eq_of_sourceName_eq (h : pool.sourceName d = pool.sourceName d') : d.id = d'.id :=
  List.append_cancel_left h

theorem id_eq_of_cacheKey_eq (pool : ProxyPool) (h : pool.cacheKey d = pool.cacheKey d') :
    d.id = d'.id :=
  List.append_cancel_left h

/-- What an HTTP source adds, by what became of its row. -/
theorem outcome_of_readSource (hhttp : desired.http = some http)
    (h : world.eval P (readSource P pool hasCache now desired) = .ok c) :
    HTTPOutcome P pool world now desired http c := by
  unfold readSource at h
  rw [hhttp] at h
  dsimp only at h
  split at h
  · cases h
  · exact readHTTPSource_outcome hhttp h

/-- A version is added by an HTTP source that resolves. -/
theorem resolves_of_version {key : Bytes} {version : CacheVersion}
    (h : world.eval P (readSource P pool hasCache now desired) = .ok c)
    (hversion : c.version = some (key, version)) :
    ∃ config, Resolves P pool world desired config ∧ key = config.key := by
  cases hhttp : desired.http with
  | none =>
    unfold readSource at h
    rw [hhttp] at h
    dsimp only at h
    split at h
    · cases h
    next ref href =>
      obtain ⟨hnone, -⟩ := readSecretSource_fromSecret hhttp href h
      exact nomatch hnone.symm.trans hversion
  | some http =>
    cases outcome_of_readSource hhttp h with
    | unresolved _ hnone => exact nomatch hnone.symm.trans hversion
    | @absent config hresolves _ hsome | @unusable config _ hresolves _ _ hsome =>
      exact ⟨config, hresolves, (Prod.mk.inj (Option.some.inj (hsome.symm.trans hversion))).1.symm⟩
    | @admitted config _ _ hfrom hsome =>
      exact ⟨config, hfrom.resolves,
        (Prod.mk.inj (Option.some.inj (hsome.symm.trans hversion))).1.symm⟩

/-- An expiry is added by an HTTP source that supplies a snapshot. -/
theorem expiry_eq_some_iff (h : world.eval P (readSource P pool hasCache now desired) = .ok c)
    {t : Time} :
    c.expiry = some t ↔ ∃ http config row snapshot,
      FromCache P pool world now desired http config row snapshot ∧ t = expiry http row := by
  constructor
  · intro hexpiry
    cases hhttp : desired.http with
    | none =>
      unfold readSource at h
      rw [hhttp] at h
      dsimp only at h
      split at h
      · cases h
      next ref href =>
        obtain ⟨-, hnone, -⟩ := readSecretSource_fromSecret hhttp href h
        exact nomatch hnone.symm.trans hexpiry
    | some http =>
      cases outcome_of_readSource hhttp h with
      | unresolved _ _ _ hnone | absent _ _ _ _ hnone | unusable _ _ _ _ _ hnone =>
        exact nomatch hnone.symm.trans hexpiry
      | @admitted config row snapshot hfrom _ _ hsome =>
        exact ⟨http, config, row, snapshot, hfrom, Option.some.inj (hexpiry.symm.trans hsome)⟩
  · rintro ⟨http, config, row, snapshot, hfrom, rfl⟩
    exact ((outcome_of_readSource hfrom.isHTTP h).of_fromCache hfrom).2.2

/-! ## The inventory -/

/-- **Every relationship of the inventory was supplied in this run.** -/
theorem inventory_supplied (h : Adds P pool world hasCache now pool.sources cs) :
    FromPlaces
      (fun source record => ∃ d ∈ pool.sources, SuppliedAt P pool world now d source record)
      ((cs.foldl PoolState.add {}).result P).inventory := by
  unfold PoolState.result
  dsimp only
  cases hinventory : (cs.foldl PoolState.add {}).set.inventory P.unicode P.sum256 with
  | error e => exact fromPlaces_nil
  | ok inventory =>
    refine deduplicate_place hinventory ?_
    intro record hrecord p hp
    obtain ⟨key, snapshot, hlookup, hmem⟩ := SnapshotSet.mem_records hrecord
    rw [set_foldl_add] at hlookup
    rcases Assoc.lookup_writeAll hlookup with ⟨before, after, hwrites, -⟩ | ⟨-, hnone⟩
    · have hwrite : (key, snapshot) ∈ snapshotWrites cs := by simp [hwrites]
      obtain ⟨c, hc, hwrite⟩ := List.mem_flatMap.mp hwrite
      obtain ⟨snapshot', hsnapshot, heq⟩ := List.mem_map.mp hwrite
      obtain ⟨-, rfl⟩ := Prod.mk.inj heq
      obtain ⟨d, hd, heval⟩ := h.exists_source hc
      have hsupplies := (snapshot_eq_some_iff heval).mp (Option.mem_toList.mp hsnapshot)
      exact ⟨d, hd, snapshot', hsupplies, record, hmem, p, hp, rfl, rfl⟩
    · cases hnone

/-! ## A source that is not listed -/

/-- The pool without a source. -/
def ProxyPool.without (pool : ProxyPool) (id : Bytes) : ProxyPool :=
  { pool with sources := pool.sources.filter fun d => d.id ≠ id }

/-- A source that resolves has an identity that no other HTTP source has. -/
theorem Resolves.identity (h : Resolves P pool world desired config) :
    ∃ http clientID, desired.http = some http ∧
      clientIdentity pool.uid desired.id http.clientIdentity = .ok clientID ∧
      identityFree pool desired clientID = true := by
  obtain ⟨http, authorization, context, hhttp, hcontext, -⟩ := h.spec
  unfold requestContext at hcontext
  split at hcontext
  · cases hcontext
  split at hcontext
  · cases hcontext
  obtain ⟨clientID, hclient, hcontext⟩ := bind_eq_ok.mp hcontext
  split at hcontext
  · cases hcontext
  next hfree =>
    rw [Bool.not_eq_true', Bool.not_eq_false] at hfree
    exact ⟨http, clientID, hhttp, hclient, hfree⟩

section

variable (hids : (pool.sources.map SubscriptionSource.id).Nodup) (hd : desired ∈ pool.sources)
  (h : Resolves P pool world desired config) (hother : other ∈ pool.sources)
  (hne : other.id ≠ desired.id)
include hids hd h hother hne

/-- A source that resolves is in no other source's way. -/
theorem identityFree_without {otherHTTP : HTTPSource} {clientID : Bytes}
    (hhttp : other.http = some otherHTTP)
    (hclient : clientIdentity pool.uid other.id otherHTTP.clientIdentity = .ok clientID) :
    identityFree (pool.without desired.id) other clientID = identityFree pool other clientID := by
  obtain ⟨http, desiredID, hdesired, hdesiredID, hfree⟩ := h.identity
  -- The comparison of the source that is taken out, seen from the other one.
  have hdiffers : desiredID ≠ clientID := by
    have hfree := List.all_eq_true.mp hfree other hother
    rw [hhttp] at hfree
    dsimp only at hfree
    rw [hclient] at hfree
    simp only [hne, decide_false, Bool.false_or, decide_eq_true_eq] at hfree
    exact hfree.symm
  unfold identityFree ProxyPool.without
  rw [List.all_filter, Bool.eq_iff_iff, List.all_eq_true, List.all_eq_true]
  refine forall₂_congr fun s hs => ?_
  by_cases hid : s.id = desired.id
  · obtain rfl := eq_of_id_eq hids hs hd hid
    simp [hdesired, hdesiredID, hdiffers]
  · simp [hid]

/-- What the checks between the reads find does not depend on it. -/
theorem requestContext_without {otherHTTP : HTTPSource} (hhttp : other.http = some otherHTTP) :
    requestContext P (pool.without desired.id) other otherHTTP =
      requestContext P pool other otherHTTP := by
  funext authorization
  have huid : (pool.without desired.id).uid = pool.uid := rfl
  unfold requestContext
  rw [huid]
  cases hclient : clientIdentity pool.uid other.id otherHTTP.clientIdentity with
  | error code => rfl
  | ok clientID =>
    have hfree := identityFree_without hids hd h hother hne hhttp hclient
    change (if _ then _ else if _ then _ else if !identityFree _ _ clientID then _ else _) =
      (if _ then _ else if _ then _ else if !identityFree _ _ clientID then _ else _)
    rw [hfree]

/-- **The other sources add the same without it.** -/
theorem readSource_without :
    readSource P (pool.without desired.id) hasCache now other =
      readSource P pool hasCache now other := by
  unfold readSource
  cases hhttp : other.http with
  | none => rfl
  | some otherHTTP =>
    have hresolve : resolveHTTP P (pool.without desired.id) other = resolveHTTP P pool other := by
      unfold resolveHTTP
      rw [hhttp]
      dsimp only
      rw [requestContext_without hids hd h hother hne hhttp]
      rfl
    unfold readHTTPSource
    rw [hresolve]
    rfl

end

/-- The contributions of some of the sources, if the others supply no snapshot. -/
theorem Adds.filter (h : Adds P pool world hasCache now sources cs)
    {keep : SubscriptionSource → Bool}
    (hdrop : ∀ d ∈ sources, keep d = false → ∀ snapshot, ¬Supplies P pool world now d snapshot) :
    ∃ cs', Adds P pool world hasCache now (sources.filter keep) cs' ∧
      snapshotWrites cs' = snapshotWrites cs := by
  induction h with
  | nil => exact ⟨[], .nil, rfl⟩
  | @cons d c sources cs hc hrest ih =>
    obtain ⟨cs', hcs', hwrites⟩ := ih fun d hd => hdrop d (List.mem_cons_of_mem _ hd)
    cases hkeep : keep d with
    | true =>
      rw [List.filter_cons_of_pos hkeep]
      refine ⟨c :: cs', .cons hc hcs', ?_⟩
      rw [snapshotWrites, List.flatMap_cons]
      exact congrArg _ hwrites
    | false =>
      rw [List.filter_cons_of_neg (by simp [hkeep])]
      refine ⟨cs', hcs', hwrites.trans ?_⟩
      have hnone : c.snapshot = none := by
        cases hsnapshot : c.snapshot with
        | none => rfl
        | some snapshot =>
          exact (hdrop d List.mem_cons_self hkeep snapshot
            ((snapshot_eq_some_iff hc).mp hsnapshot)).elim
      rw [snapshotWrites, snapshotWrites, List.flatMap_cons, hnone]
      rfl

/-- **A source that supplies nothing might as well not be listed.** -/
theorem inventory_without {result : PoolResult}
    (hids : (pool.sources.map SubscriptionSource.id).Nodup) (hd : desired ∈ pool.sources)
    (h : Resolves P pool world desired config)
    (hnone : ∀ snapshot, ¬Supplies P pool world now desired snapshot)
    (hbuild : world.eval P (buildPoolWithCache P pool hasCache now) = .ok result) :
    (pool.without desired.id).sources = [] ∧ result.inventory = [] ∨
      ∃ result', world.eval P (buildPoolWithCache P (pool.without desired.id) hasCache now) =
        .ok result' ∧ result'.inventory = result.inventory := by
  obtain ⟨⟨hnamespace, huid, -⟩, cs, hcs, rfl⟩ := build_eq_ok.mp hbuild
  have hdrop : ∀ d ∈ pool.sources, decide (d.id ≠ desired.id) = false →
      ∀ snapshot, ¬Supplies P pool world now d snapshot := by
    intro d hd' hid
    rw [decide_eq_false_iff_not, not_not] at hid
    rw [eq_of_id_eq hids hd' hd hid]
    exact hnone
  obtain ⟨cs', hcs', hwrites⟩ := hcs.filter hdrop
  have hsame : ((cs'.foldl PoolState.add {}).result P).inventory =
      ((cs.foldl PoolState.add {}).result P).inventory := by
    unfold PoolState.result
    dsimp only
    rw [set_foldl_add, set_foldl_add, hwrites]
  by_cases hempty : (pool.without desired.id).sources = []
  · refine .inl ⟨hempty, ?_⟩
    have hempty : pool.sources.filter (fun d => decide (d.id ≠ desired.id)) = [] := hempty
    rw [hempty] at hcs'
    cases hcs'
    rw [← hsame]
    rfl
  · refine .inr ⟨_, build_eq_ok.mpr ⟨⟨hnamespace, huid, hempty⟩, cs', ?_, rfl⟩, hsame⟩
    have hboth := (List.forall₂_and_left _ _).mpr
      ⟨fun (d : SubscriptionSource) hmem => List.mem_filter.mp hmem, hcs'⟩
    refine hboth.imp fun d c hc => ?_
    obtain ⟨⟨hd', hid⟩, hc⟩ := hc
    rw [decide_eq_true_eq] at hid
    rwa [readSource_without hids hd h hd' hid]

/-! ## The next expiry -/

theorem earlier_ne_zero {next expires : Time} (hnext : next ≠ 0) (hexpires : expires ≠ 0) :
    earlier next expires ≠ 0 := by
  unfold earlier
  split_ifs
  · exact hexpires
  · exact hnext

/-- The loop keeps the least of the times it has seen. -/
theorem isLeast_foldl_earlier {l : List Time} (hl : ∀ t ∈ l, t ≠ 0) :
    ∀ {next : Time}, next ≠ 0 → IsLeast {t | t = next ∨ t ∈ l} (l.foldl earlier next) := by
  induction l with
  | nil =>
    intro next _
    refine ⟨.inl rfl, ?_⟩
    rintro t (rfl | ht)
    · exact le_refl _
    · cases ht
  | cons expires l ih =>
    intro next hnext
    have hexpires := hl expires List.mem_cons_self
    obtain ⟨hmem, hleast⟩ :=
      ih (fun t ht => hl t (List.mem_cons_of_mem _ ht)) (earlier_ne_zero hnext hexpires)
    have hmin : earlier next expires = min next expires := by
      unfold earlier
      rw [min_def]
      by_cases hlt : expires < next
      · simp [hlt, not_le.mpr hlt]
      · simp [hlt, hnext, not_lt.mp hlt]
    rw [List.foldl_cons]
    constructor
    · rcases hmem with hmem | hmem
      · rcases min_choice next expires with hchoice | hchoice
        · exact .inl (hmem.trans (hmin.trans hchoice))
        · exact .inr (List.mem_cons.mpr (.inl (hmem.trans (hmin.trans hchoice))))
      · exact .inr (List.mem_cons_of_mem _ hmem)
    · have hle := hleast (.inl rfl)
      rw [hmin, le_min_iff] at hle
      rintro t (rfl | ht)
      · rw [hmin]
        exact hle.1
      rcases List.mem_cons.mp ht with rfl | ht
      · rw [hmin]
        exact hle.2
      · exact hleast (.inr ht)

/-- The times at which the rows of sources that supply a snapshot expire. -/
def Expiries (P : Platform) (pool : ProxyPool) (world : World) (now : Time) : Set Time :=
  { t | ∃ d ∈ pool.sources, ∃ http config row snapshot,
    FromCache P pool world now d http config row snapshot ∧ t = expiry http row }

/-- A row that can be loaded was validated after 1970. -/
theorem expiry_ne_zero {row : Row} (h : Loads P world config row) : expiry http row ≠ 0 := by
  obtain ⟨-, haccepted, hvalidated, -⟩ := Cache.Row.consistent_iff.mp h.consistent
  have hstale : 0 < maxSourceStale http.maxStale := maxSourceStale_pos http.maxStale
  have hpos : 0 < expiry http row := by
    unfold expiry ofUnixNano
    have hepoch : 0 < Checkpoint.unixEpoch := by decide
    exact add_pos (add_pos hepoch (haccepted.trans_le hvalidated)) hstale
  exact hpos.ne'

/-- **The next expiry is the earliest of all**, and zero if there is none. -/
theorem nextCacheExpiry_spec (h : Adds P pool world hasCache now pool.sources cs) :
    let next := ((cs.foldl PoolState.add {}).result P).nextCacheExpiry
    Expiries P pool world now = ∅ ∧ next = 0 ∨ IsLeast (Expiries P pool world now) next := by
  have hmem : ∀ t, t ∈ cs.filterMap Contribution.expiry ↔ t ∈ Expiries P pool world now := by
    intro t
    rw [List.mem_filterMap]
    constructor
    · rintro ⟨c, hc, hexpiry⟩
      obtain ⟨d, hd, heval⟩ := h.exists_source hc
      exact ⟨d, hd, (expiry_eq_some_iff heval).mp hexpiry⟩
    · rintro ⟨d, hd, hfrom⟩
      obtain ⟨c, hc, heval⟩ := h.exists_contribution hd
      exact ⟨c, hc, (expiry_eq_some_iff heval).mpr hfrom⟩
  have hne : ∀ t ∈ cs.filterMap Contribution.expiry, t ≠ 0 := by
    intro t ht
    obtain ⟨d, hd, http, config, row, snapshot, hfrom, rfl⟩ := (hmem t).mp ht
    exact expiry_ne_zero hfrom.loads
  intro next
  have hnext : next = (cs.filterMap Contribution.expiry).foldl earlier 0 :=
    nextCacheExpiry_foldl_add cs {}
  rw [hnext]
  cases htimes : cs.filterMap Contribution.expiry with
  | nil =>
    refine .inl ⟨Set.eq_empty_of_forall_notMem fun t ht => ?_, rfl⟩
    rw [← hmem, htimes] at ht
    cases ht
  | cons first rest =>
    rw [htimes] at hne
    refine .inr ?_
    have hleast := isLeast_foldl_earlier (fun t ht => hne t (List.mem_cons_of_mem _ ht))
      (hne first List.mem_cons_self)
    have hset : {t | t = first ∨ t ∈ rest} = Expiries P pool world now := by
      ext t
      rw [← hmem, htimes, List.mem_cons]
      rfl
    rw [← hset]
    exact hleast

/-! ## The guard of a selection -/

/-- With distinct IDs the version of a source is the one that it added. -/
theorem lookup_version (hids : (pool.sources.map SubscriptionSource.id).Nodup)
    (h : Adds P pool world hasCache now pool.sources cs) (hd : desired ∈ pool.sources)
    (hc : world.eval P (readSource P pool hasCache now desired) = .ok c) {key : Bytes}
    {version : CacheVersion} (hversion : c.version = some (key, version)) :
    ((cs.foldl PoolState.add {}).result P).cacheVersions.lookup key = some version := by
  obtain ⟨config, hresolves, rfl⟩ := resolves_of_version hc hversion
  obtain ⟨c', hc', heval⟩ := h.exists_contribution hd
  obtain rfl := Except.ok.inj (hc.symm.trans heval)
  have hwrite : config.key ∈ (versionWrites cs).map Prod.fst := by
    refine List.mem_map.mpr ⟨(config.key, version), List.mem_flatMap.mpr ⟨c, hc', ?_⟩, rfl⟩
    exact Option.mem_toList.mpr hversion
  change (cs.foldl PoolState.add {}).cacheVersions.lookup config.key = some version
  rw [cacheVersions_foldl_add]
  obtain ⟨version', hlookup⟩ := Assoc.lookup_writeAll_of_mem (s := ∅) hwrite
  rcases Assoc.lookup_writeAll hlookup with ⟨before, after, hwrites, -⟩ | ⟨hnot, -⟩
  · have hmem : (config.key, version') ∈ versionWrites cs := by simp [hwrites]
    obtain ⟨c'', hc'', hversion''⟩ := List.mem_flatMap.mp hmem
    obtain ⟨d, hd', heval'⟩ := h.exists_source hc''
    have hversion'' := Option.mem_toList.mp hversion''
    obtain ⟨config', hresolves', hkey⟩ := resolves_of_version heval' hversion''
    obtain ⟨-, -, -, -, -, hkeyd, -⟩ := hresolves.spec
    obtain ⟨-, -, -, -, -, hkeyd', -⟩ := hresolves'.spec
    have hid : d.id = desired.id := by
      apply id_eq_of_cacheKey_eq pool
      rw [← hkeyd, ← hkeyd', hkey]
    obtain rfl := eq_of_id_eq hids hd' hd hid
    obtain rfl := Except.ok.inj (heval'.symm.trans heval)
    have hsame := Option.some.inj (hversion''.symm.trans hversion)
    rw [hlookup, (Prod.mk.inj hsame).2]
  · exact (hnot hwrite).elim

/-- **A guard that is bound to a selection does not pass after the expiry of a selected source.** -/
theorem selected_unexpired {guard : SnapshotGuard} {selected : List Record} {moment : Moment}
    {t : Time} (hids : (pool.sources.map SubscriptionSource.id).Nodup)
    (h : Adds P pool world hasCache now pool.sources cs)
    (hselected : selected ⊆ ((cs.foldl PoolState.add {}).result P).inventory)
    (hcheck : ((guard.bindCache ((cs.foldl PoolState.add {}).result P).cacheVersions).bindSelected
      selected).check P.sum256 moment t = true)
    {record : Record} (hrecord : record ∈ selected) {p : Provenance} (hp : p ∈ record.provenance)
    (hd : desired ∈ pool.sources) (hhttp : desired.http = some http)
    (hsource : p.source = pool.sourceName desired) :
    ∃ config row snapshot, FromCache P pool world now desired http config row snapshot ∧
      t < expiry http row := by
  obtain ⟨d, hd', hsupplied⟩ := inventory_supplied h record (hselected hrecord) p hp
  have hid := id_eq_of_sourceName_eq (hsource.symm.trans hsupplied.source)
  obtain rfl := eq_of_id_eq hids hd hd' hid
  obtain ⟨snapshot, hsupplies, r, hr, -⟩ := hsupplied
  cases hsupplies with
  | secret hfrom => exact nomatch hhttp.symm.trans hfrom.isSecret
  | @cache http' config row _ hfrom =>
    obtain rfl := Option.some.inj (hhttp.symm.trans hfrom.isHTTP)
    refine ⟨config, row, snapshot, hfrom, ?_⟩
    obtain ⟨c, -, hc⟩ := h.exists_contribution hd
    obtain ⟨hversion, -, -⟩ := (outcome_of_readSource hhttp hc).of_fromCache hfrom
    rw [if_pos (List.length_pos_of_mem hr)] at hversion
    have hlookup := lookup_version hids h hd hc hversion
    obtain ⟨-, -, -, hversions⟩ := SnapshotGuard.check_iff.mp hcheck
    have hbound : (((guard.bindCache
        ((cs.foldl PoolState.add {}).result P).cacheVersions).bindSelected
          selected).cacheVersions).lookup config.key =
        some { versionOf P config (row.entry config.key) with expiresAt := expiry http row } := by
      unfold SnapshotGuard.bindSelected SnapshotGuard.bindCache
      dsimp only
      rw [Assoc.lookup_mapValues, hlookup, Option.map_some, if_pos]
      obtain ⟨-, -, -, -, -, -, hid⟩ := hfrom.resolves.spec
      refine List.mem_flatMap.mpr ⟨record, hrecord, List.mem_map.mpr ⟨p, hp, ?_⟩⟩
      exact hsource.trans hid.symm
    obtain ⟨hfresh, -⟩ := versionUnchanged_iff.mp (hversions config.key _ hbound)
    exact hfresh (expiry_ne_zero hfrom.loads)

/-- **No stale subscription is used or published.**  For a pool with distinct source IDs whose
build succeeds: every relationship of the inventory is one of a snapshot supplied from a Secret or
from a current row of the cache; an HTTP source that resolves but has no such row adds nothing, and
the inventory is the one without it; the next expiry is the earliest of the rows that supplied; and
a guard that is bound to a selection passes only before the expiry of every selected source. -/
theorem no_stale_subscription {result : PoolResult}
    (hids : (pool.sources.map SubscriptionSource.id).Nodup)
    (hbuild : world.eval P (buildPoolWithCache P pool hasCache now) = .ok result) :
    (∀ record ∈ result.inventory, ∀ p ∈ record.provenance, ∃ d ∈ pool.sources,
      p.source = pool.sourceName d ∧ SuppliedAt P pool world now d p.source p.record) ∧
    (∀ d ∈ pool.sources, ∀ http config, d.http = some http → Resolves P pool world d config →
      (∀ row snapshot, ¬FromCache P pool world now d http config row snapshot) →
      (∀ record ∈ result.inventory, ∀ p ∈ record.provenance, p.source ≠ pool.sourceName d) ∧
      ((pool.without d.id).sources = [] ∧ result.inventory = [] ∨
        ∃ result', world.eval P (buildPoolWithCache P (pool.without d.id) hasCache now) =
          .ok result' ∧ result'.inventory = result.inventory)) ∧
    (Expiries P pool world now = ∅ ∧ result.nextCacheExpiry = 0 ∨
      IsLeast (Expiries P pool world now) result.nextCacheExpiry) ∧
    ∀ (guard : SnapshotGuard) (selected : List Record) (moment : Moment) (t : Time),
      selected ⊆ result.inventory →
      ((guard.bindCache result.cacheVersions).bindSelected selected).check P.sum256 moment t =
        true →
      ∀ record ∈ selected, ∀ p ∈ record.provenance, ∀ d ∈ pool.sources, ∀ http,
        d.http = some http → p.source = pool.sourceName d →
        ∃ config row snapshot, FromCache P pool world now d http config row snapshot ∧
          t < expiry http row := by
  obtain ⟨-, cs, hcs, rfl⟩ := build_eq_ok.mp hbuild
  have hsupplied := inventory_supplied hcs
  refine ⟨?_, ?_, nextCacheExpiry_spec hcs, ?_⟩
  · intro record hrecord p hp
    obtain ⟨d, hd, hat⟩ := hsupplied record hrecord p hp
    exact ⟨d, hd, hat.source, hat⟩
  · intro d hd http config hhttp hresolves hstale
    have hnone : ∀ snapshot, ¬Supplies P pool world now d snapshot := by
      intro snapshot hsupplies
      cases hsupplies with
      | secret hfrom => exact nomatch hhttp.symm.trans hfrom.isSecret
      | @cache http' config' row _ hfrom =>
        obtain rfl := Option.some.inj (hhttp.symm.trans hfrom.isHTTP)
        obtain rfl := hresolves.unique hfrom.resolves
        exact hstale row snapshot hfrom
    refine ⟨?_, inventory_without hids hd hresolves hnone hbuild⟩
    intro record hrecord p hp hsource
    obtain ⟨d', hd', hat⟩ := hsupplied record hrecord p hp
    have hid := id_eq_of_sourceName_eq (hsource.symm.trans hat.source)
    obtain rfl := eq_of_id_eq hids hd hd' hid
    obtain ⟨snapshot, hsupplies, -⟩ := hat
    exact hnone snapshot hsupplies
  · intro guard selected moment t hselected hcheck record hrecord p hp d hd http hhttp hsource
    exact selected_unexpired hids hcs hselected hcheck hrecord hp hd hhttp hsource

namespace Sample

/-- Both sources supply a snapshot, and the row of the second expires a day after its
validation. -/
theorem no_stale_subscription_mixed :
    ∃ result, cachedWorld.eval openPlatform
        (buildPoolWithCache openPlatform mixed true minuteLater) = .ok result ∧
      result.inventory ≠ [] ∧
      result.nextCacheExpiry = ofUnixNano 1 + 24 * Duration.hour ∧
      IsLeast (Expiries openPlatform mixed cachedWorld minuteLater) result.nextCacheExpiry := by
  obtain ⟨result, hbuild, hgood⟩ := exists_of_any
    (x := cachedWorld.eval openPlatform (buildPoolWithCache openPlatform mixed true minuteLater))
    (p := fun result => decide (result.inventory ≠ []) &&
      decide (result.nextCacheExpiry = ofUnixNano 1 + 24 * Duration.hour)) (by decide +kernel)
  rw [Bool.and_eq_true, decide_eq_true_eq, decide_eq_true_eq] at hgood
  obtain ⟨-, -, hexpiry, -⟩ := no_stale_subscription (by decide) hbuild
  refine ⟨result, hbuild, hgood.1, hgood.2, hexpiry.resolve_left ?_⟩
  rintro ⟨-, hzero⟩
  rw [hgood.2] at hzero
  exact absurd hzero (by decide)

end Sample

end Egressfox.Pool
