import Egressfox.Cache.Refresh
import Egressfox.Lib.Asking
import Egressfox.Pool.Profile

/-!
# Building a pool

`BuildPoolWithCache` and `ResolveHTTP` of `internal/operator/pool.go`.  Both read Secrets of the
pool's namespace and rows of the source cache while others write to them, so they are programs
that ask: a run has a transcript, and two reads of one Secret may have different answers.

A map that is only written is the list of its writes; the last write of a key counts.  The body
of the loop over the sources looks at nothing that earlier sources left, so it is written as what
one source adds (`readSource`), and `PoolState.add` adds it.

What is not embedded is in `Platform`: the readers of subscription texts, `url.Parse`, and
`json.Marshal` of the identity that is hashed to the fingerprint.
-/

namespace Egressfox.Pool

open Lib Endpoint Source
open Cache (SourceCache Table loadSourceCache maxSourceStale)

/-! ## What is read -/

/-- `ResourceRevision`. -/
structure ResourceRevision where
  uid : Bytes := []
  resourceVersion : Bytes := []
deriving DecidableEq, Repr

/-- A Secret as the API server returns it: it has been given a UID and a resource version. -/
structure StoredSecret where
  uid : Bytes
  resourceVersion : Bytes
  data : Assoc Bytes Bytes
  stamped : uid ≠ [] ∨ resourceVersion ≠ []
deriving DecidableEq

def StoredSecret.revision (secret : StoredSecret) : ResourceRevision :=
  ⟨secret.uid, secret.resourceVersion⟩

/-- The answer of `Reader.Get`. -/
inductive Lookup where
  | found (secret : StoredSecret)
  | notFound
  | failed
deriving DecidableEq

/-- What a build reads of its surroundings. -/
inductive Access where
  /-- `Reader.Get` of a Secret in the namespace of the pool. -/
  | secret (name : Bytes)
  /-- `Store.LoadSourceCache`. -/
  | cache (key : Bytes) (fingerprint : Digest)
  /-- `Context.Err`. -/
  | cancelled
deriving DecidableEq

def Access.Answer : Access → Type
  | .secret _ => Lookup
  | .cache _ _ => Except Cache.Failure (Option SourceCache)
  | .cancelled => Bool

/-- A program that reads. -/
abbrev Reading := Asking Access Access.Answer

/-- What was read. -/
abbrev Log := Asking.Transcript Access Access.Answer

/-- The surroundings at one moment. -/
structure World where
  secret : Bytes → Lookup
  table : Table
  readable : Bool
  cancelled : Bool

/-- What a read returns. -/
def World.answer (sum256 : Bytes → Digest) (world : World) : (access : Access) → access.Answer
  | .secret name => world.secret name
  | .cache key fingerprint => loadSourceCache sum256 world.table world.readable key fingerprint
  | .cancelled => world.cancelled

def getSecret (name : Bytes) : Reading Lookup := Asking.question (Access.secret name)

def loadCache (key : Bytes) (fingerprint : Digest) :
    Reading (Except Cache.Failure (Option SourceCache)) :=
  Asking.question (Access.cache key fingerprint)

def contextErr : Reading Bool := Asking.question Access.cancelled

/-! ## The pool -/

/-- `SecretKeyReference`. -/
structure SecretKeyReference where
  name : Bytes
  key : Bytes
deriving DecidableEq, Repr

/-- `HTTPSecretHeader`. -/
structure HTTPSecretHeader where
  name : Bytes
  secretRef : SecretKeyReference
deriving DecidableEq, Repr

/-- `SourceFormat`, with the texts that are none. -/
inductive SourceFormat where
  | uriList
  | base64URIList
  | json
  | auto
  | other (text : Bytes)
deriving DecidableEq, Repr

/-- `sourceFormat`. -/
def sourceFormat : SourceFormat → Option Format
  | .uriList => some .uriList
  | .base64URIList => some .base64URIList
  | .json => some .json
  | .auto => some .auto
  | .other _ => none

/-- `HTTPSource`. -/
structure HTTPSource where
  urlSecretRef : SecretKeyReference
  clientIdentity : Bytes := []
  authorizationSecretRef : Option SecretKeyReference := none
  secretHeaders : List HTTPSecretHeader := []
  profile : Option HTTPClientProfile := none
  allowHTTP : Bool := false
  allowPrivateNetworks : Bool := false
  allowLoopback : Bool := false
  allowInsecureTLS : Bool := false
  maxStale : Option Duration := none
deriving DecidableEq, Repr

/-- `SubscriptionSource`. -/
structure SubscriptionSource where
  id : Bytes
  secretRef : Option SecretKeyReference := none
  http : Option HTTPSource := none
  format : SourceFormat
  allowEmpty : Bool := false
  allowPartial : Bool := false
deriving DecidableEq, Repr

/-- `ProxyPool`, as far as a build and the guard look at it. -/
structure ProxyPool where
  namespace_ : Bytes
  name : Bytes
  uid : Bytes
  generation : Int
  resourceVersion : Bytes
  sources : List SubscriptionSource
  allowInsecureTLS : Bool := false
  refreshInterval : Option Duration := none
deriving DecidableEq, Repr

/-- The parts of a URL that `NewHTTP` looks at. -/
structure Location where
  scheme : Bytes
  hostname : Bytes
  hasUser : Bool
  fragment : Bytes
deriving DecidableEq, Repr

/-- What is hashed to the fingerprint of an HTTP source. -/
structure HTTPIdentity where
  url : Bytes
  authorization : Bytes
  headers : Headers
  clientIdentity : Bytes
  format : SourceFormat
  allowEmpty : Bool
  allowPartial : Bool
  allowInsecureTLS : Bool
  allowHTTP : Bool
  allowPrivateNetworks : Bool
  allowLoopback : Bool
  sourceInsecureTLS : Bool
deriving DecidableEq

/-- What is not embedded. -/
structure Platform where
  unicode : Unicode
  sum256 : Bytes → Digest
  readers : Readers
  /-- `url.Parse`. -/
  parseURL : Bytes → Option Location
  /-- `json.Marshal` of the identity. -/
  marshal : HTTPIdentity → Bytes

/-- The text of the source ID of a source. -/
def ProxyPool.sourceName (pool : ProxyPool) (desired : SubscriptionSource) : Bytes :=
  ascii "k8s-" ++ pool.uid ++ ascii "-" ++ desired.id

/-- The key of an HTTP source in the cache. -/
def ProxyPool.cacheKey (pool : ProxyPool) (desired : SubscriptionSource) : Bytes :=
  pool.uid ++ ascii "/" ++ desired.id

/-! ## Resolving an HTTP source -/

/-- The revisions that were recorded, in the order of the writes. -/
abbrev Recorded := List (Bytes × ResourceRevision)

/-- `HTTPConfig`, without the source for requests. -/
structure HTTPConfig where
  key : Bytes
  fingerprint : Digest
  sourceID : Bytes
  revisions : Recorded
deriving DecidableEq

/-- The function `read` of `ResolveHTTP`. -/
def readReference (ref : SecretKeyReference) (revisions : Recorded) :
    Reading (Except PoolFailure (Bytes × Recorded)) := do
  match ← getSecret ref.name with
  | .found secret =>
    match secret.data.lookup ref.key with
    | none => return .error .sourceKeyMissing
    | some value => return .ok (value, revisions ++ [(ref.name, secret.revision)])
  | _ => return .error .sourceUnavailable

/-- The read of the authorization, if there is one. -/
def readAuthorization (ref : Option SecretKeyReference) (revisions : Recorded) :
    Reading (Except PoolFailure (Bytes × Recorded)) :=
  match ref with
  | none => return .ok ([], revisions)
  | some ref => readReference ref revisions

/-- The loop over the other sources: no other HTTP source has this identity. -/
def identityFree (pool : ProxyPool) (desired : SubscriptionSource) (clientID : Bytes) : Bool :=
  pool.sources.all fun other =>
    match other.http with
    | none => true
    | some http =>
      other.id = desired.id ||
        match clientIdentity pool.uid other.id http.clientIdentity with
        | .error _ => false
        | .ok otherIdentity => otherIdentity ≠ clientID

section Resolve

variable (P : Platform)

/-- The checks between the reads: the client identity and the headers that are not secret. -/
def requestContext (pool : ProxyPool) (desired : SubscriptionSource) (http : HTTPSource)
    (authorization : Bytes) : Except PoolFailure (Bytes × Headers) := do
  if authorization.length > 8192 then .error .sourceAuthorization
  else if authorization.any fun value => value.val < 0x20 || value = 0x7f then
    .error .sourceAuthorization
  else
    let clientID ← clientIdentity pool.uid desired.id http.clientIdentity
    if !identityFree pool desired clientID then .error .clientIdentityConflict
    else
      let headers ← profileHeaders P.unicode P.sum256 clientID http.profile
      let headers :=
        if authorization.length > 0 then headers.set (ascii "Authorization") authorization
        else headers
      if http.secretHeaders.length > 8 then .error .sourceHeaderLimit
      else return (clientID, headers)

/-- The loop over the secret headers. -/
def readHeaders : List HTTPSecretHeader → Headers → Recorded →
    Reading (Except PoolFailure (Headers × Recorded))
  | [], headers, revisions => return .ok (headers, revisions)
  | header :: rest, headers, revisions =>
    if !validHeaderName header.name ||
        reservedTransportOrProfileHeader P.unicode header.name ||
        header.name.map lowerASCII = ascii "authorization" then
      return .error .sourceHeaderName
    else
      let name := canonicalHeaderKey header.name
      if (headers.lookup name).isSome then return .error .sourceHeaderDuplicate
      else
        (readReference header.secretRef revisions).attempt fun (value, revisions) =>
          if !validHeaderValue value 8192 then return .error .sourceHeaderValue
          else readHeaders rest (headers.set name value) revisions

/-- `NewHTTP` accepts the URL. -/
def newHTTP (rawURL : Bytes) (allowHTTP : Bool) : Bool :=
  match P.parseURL rawURL with
  | none => false
  | some location =>
    location.hostname ≠ [] && !location.hasUser &&
      (location.scheme = ascii "https" || allowHTTP && location.scheme = ascii "http") &&
      rawURL.length ≤ 4096 && location.fragment = []

/-- The fingerprint of a request. -/
def fingerprintOf (pool : ProxyPool) (desired : SubscriptionSource) (http : HTTPSource)
    (url authorization : Bytes) (headers : Headers) (clientID : Bytes) : Digest :=
  P.sum256 <| P.marshal
    ⟨url, authorization, headers, clientID, desired.format, desired.allowEmpty,
      desired.allowPartial, pool.allowInsecureTLS, http.allowHTTP, http.allowPrivateNetworks,
      http.allowLoopback, http.allowInsecureTLS⟩

/-- `ResolveHTTP`. -/
def resolveHTTP (pool : ProxyPool) (desired : SubscriptionSource) :
    Reading (Except PoolFailure HTTPConfig) :=
  match desired.http with
  | none => return .error .sourceVariant
  | some http =>
    if desired.secretRef.isSome || pool.uid = [] then return .error .sourceVariant
    else
      match newSourceID (pool.sourceName desired) with
      | .error _ => return .error .sourceID
      | .ok id =>
        (readReference http.urlSecretRef []).attempt fun (url, revisions) =>
        (readAuthorization http.authorizationSecretRef revisions).attempt
          fun (authorization, revisions) =>
        match requestContext P pool desired http authorization with
        | .error code => return .error code
        | .ok (clientID, headers) =>
          (readHeaders P http.secretHeaders headers revisions).attempt
            fun (headers, revisions) =>
          if !newHTTP P url http.allowHTTP then return .error .sourceHTTP
          else
            return .ok ⟨pool.cacheKey desired,
              fingerprintOf P pool desired http url authorization headers clientID, id,
              revisions⟩

end Resolve

/-! ## One source -/

/-- `CacheVersion`. -/
structure CacheVersion where
  digest : Digest := Digest.zero
  validatedAt : Time := 0
  present : Bool := false
  sourceID : Bytes := []
  /-- Set only after the entry contributed to the inventory. -/
  expiresAt : Time := 0
deriving DecidableEq

/-- The field `State` of `SourceState`. -/
inductive Freshness where
  | fresh
  | cached
  | expired
  | unavailable
deriving DecidableEq, Repr

/-- The field `Reason` of `SourceState`. -/
inductive Reason where
  | configuration
  | cacheCorrupt
  | cacheMissing
  | cacheClockInvalid
  | cacheExpired
  | recentlyValidated
  | cacheFallback
  | secretAdmitted
deriving DecidableEq, Repr

/-- `SourceState`. -/
structure SourceState where
  id : Bytes
  state : Freshness
  reason : Reason
  lastSuccess : Option Time := none
deriving DecidableEq, Repr

/-- What one source adds to the result. -/
structure Contribution where
  revisions : Recorded
  version : Option (Bytes × CacheVersion) := none
  snapshot : Option Snapshot := none
  report : Report := {}
  expiry : Option Time := none
  state : SourceState
deriving DecidableEq

/-- The references of an HTTP source. -/
def HTTPSource.references (http : HTTPSource) : List SecretKeyReference :=
  http.urlSecretRef :: http.authorizationSecretRef.toList ++
    http.secretHeaders.map HTTPSecretHeader.secretRef

/-- `recordHTTPReferences`. -/
def recordHTTPReferences : List SecretKeyReference → Recorded →
    Reading (Except PoolFailure Recorded)
  | [], revisions => return .ok revisions
  | ref :: rest, revisions => do
      match ← getSecret ref.name with
      | .failed => return .error .sourceUnavailable
      | .notFound => recordHTTPReferences rest (revisions ++ [(ref.name, {})])
      | .found secret => recordHTTPReferences rest (revisions ++ [(ref.name, secret.revision)])

/-- `refreshDuration`. -/
def refreshDuration : Option Duration → Duration
  | none => 5 * Duration.minute
  | some value =>
    if value < 30 * Duration.second || value > 24 * Duration.hour then 5 * Duration.minute
    else value

section Sources

variable (P : Platform)

/-- `parseSource`. -/
def parseSource (payload : Payload) (desired : SubscriptionSource) (pool : ProxyPool) :
    Option (Snapshot × Report) :=
  match sourceFormat desired.format with
  | none => none
  | some format =>
    (parse P.unicode P.sum256 P.readers payload
      ⟨format, defaultLimits, desired.allowPartial,
        [.vless, .trojan, .vmess, .shadowsocks, .socks5, .httpProxy, .hysteria2],
        !pool.allowInsecureTLS⟩).toOption

/-- A payload that is acquired, parsed and accepted as a snapshot. -/
def admitPayload (pool : ProxyPool) (desired : SubscriptionSource) (sourceID data : Bytes)
    (cancelled : Bool) : Option (Snapshot × Report) := do
  let inline ← newInline sourceID data defaultLimits
  let payload ← inline.acquire cancelled
  let (snapshot, report) ← parseSource P payload desired pool
  if snapshot.acceptable desired.allowEmpty then some (snapshot, report) else none

/-- The version of an entry, before it is known to contribute. -/
def versionOf (config : HTTPConfig) (entry : SourceCache) : CacheVersion :=
  ⟨P.sum256 entry.body, entry.validatedAt, true, config.sourceID, 0⟩

/-- An entry that cannot be used. -/
def unusableEntry (desired : SubscriptionSource) (config : HTTPConfig) (revisions : Recorded)
    (entry : SourceCache) (state : Freshness) (reason : Reason) (last : Option Time) :
    Contribution where
  revisions := revisions
  version := some (config.key, versionOf P config entry)
  state := ⟨desired.id, state, reason, last⟩

/-- An entry that is admitted. -/
def admittedEntry (pool : ProxyPool) (desired : SubscriptionSource) (http : HTTPSource) (now : Time)
    (config : HTTPConfig) (revisions : Recorded) (entry : SourceCache) (snapshot : Snapshot)
    (report : Report) : Contribution :=
  let version := versionOf P config entry
  let expires := entry.validatedAt + maxSourceStale http.maxStale
  let fallback := decide (now - entry.validatedAt > 3 * refreshDuration pool.refreshInterval / 2)
  { revisions
    version := some (config.key,
      if snapshot.records.length > 0 then { version with expiresAt := expires } else version)
    snapshot := some snapshot
    report
    expiry := some expires
    state := ⟨desired.id, if fallback then .cached else .fresh,
      if fallback then .cacheFallback else .recentlyValidated, some entry.validatedAt⟩ }

/-- What a loaded entry adds. -/
def useEntry (pool : ProxyPool) (desired : SubscriptionSource) (http : HTTPSource) (now : Time)
    (config : HTTPConfig) (revisions : Recorded) (entry : SourceCache) : Reading Contribution :=
  let unusable := unusableEntry P desired config revisions entry
  if now < entry.validatedAt - 5 * Duration.minute then
    return unusable .unavailable .cacheClockInvalid none
  else if !decide (now < entry.validatedAt + maxSourceStale http.maxStale) then
    return unusable .expired .cacheExpired (some entry.validatedAt)
  else do
    let cancelled ← contextErr
    match admitPayload P pool desired config.sourceID entry.body cancelled with
    | none => return unusable .unavailable .cacheCorrupt none
    | some (snapshot, report) =>
      return admittedEntry P pool desired http now config revisions entry snapshot report

/-- What an HTTP source adds. -/
def readHTTPSource (pool : ProxyPool) (desired : SubscriptionSource) (http : HTTPSource)
    (now : Time) : Reading (Except PoolFailure Contribution) :=
  (recordHTTPReferences http.references []).attempt fun recorded => do
    match ← resolveHTTP P pool desired with
    | .error _ =>
      return .ok {
        revisions := recorded
        state := ⟨desired.id, .unavailable, .configuration, none⟩ }
    | .ok config =>
      let revisions := recorded ++ config.revisions
      let absent (reason : Reason) : Contribution :=
        { revisions, version := some (config.key, {}),
          state := ⟨desired.id, .unavailable, reason, none⟩ }
      match ← loadCache config.key config.fingerprint with
      | .error _ => return .ok (absent .cacheCorrupt)
      | .ok none => return .ok (absent .cacheMissing)
      | .ok (some entry) =>
        return .ok (← useEntry P pool desired http now config revisions entry)

/-- What a Secret source adds. -/
def readSecretSource (pool : ProxyPool) (desired : SubscriptionSource) (ref : SecretKeyReference) :
    Reading (Except PoolFailure Contribution) := do
  match ← getSecret ref.name with
  | .found secret =>
    match secret.data.lookup ref.key with
    | none => return .error .sourceKeyMissing
    | some data =>
      match newSourceID (pool.sourceName desired) with
      | .error _ => return .error .sourceID
      | .ok sourceID =>
        match newInline sourceID data defaultLimits with
        | none => return .error .sourceLimits
        | some inline =>
          match inline.acquire (← contextErr) with
          | none => return .error .sourceAcquire
          | some payload =>
            match parseSource P payload desired pool with
            | none => return .error .sourceRejected
            | some (snapshot, report) =>
              if !snapshot.acceptable desired.allowEmpty then
                return .error .snapshotRejected
              else
                return .ok {
                  revisions := [(ref.name, secret.revision)]
                  snapshot := some snapshot
                  report
                  state := ⟨desired.id, .fresh, .secretAdmitted, none⟩ }
  | _ => return .error .sourceUnavailable

/-- The body of the loop of `BuildPoolWithCache`. -/
def readSource (pool : ProxyPool) (hasCache : Bool) (now : Time) (desired : SubscriptionSource) :
    Reading (Except PoolFailure Contribution) :=
  match desired.http with
  | some http =>
    if desired.secretRef.isSome || !hasCache then return .error .sourceVariant
    else readHTTPSource P pool desired http now
  | none =>
    match desired.secretRef with
    | none => return .error .sourceVariant
    | some ref => readSecretSource P pool desired ref

/-! ## All sources -/

/-- The variables of the loop. -/
structure PoolState where
  set : SnapshotSet := ∅
  nextCacheExpiry : Time := 0
  accepted : Nat := 0
  rejected : Nat := 0
  unsupported : Nat := 0
  sourceRevisions : Assoc Bytes ResourceRevision := ∅
  sources : List SourceState := []
  cacheVersions : Assoc Bytes CacheVersion := ∅

/-- The earlier of two expiry times, of which the first may be missing. -/
def earlier (next expires : Time) : Time := if next = 0 || expires < next then expires else next

/-- What a source adds, added. -/
def PoolState.add (s : PoolState) (c : Contribution) : PoolState where
  set := Assoc.writeAll s.set (c.snapshot.toList.map fun snapshot => (snapshot.source, snapshot))
  nextCacheExpiry := c.expiry.elim s.nextCacheExpiry (earlier s.nextCacheExpiry)
  accepted := s.accepted + c.report.accepted
  rejected := s.rejected + c.report.rejected
  unsupported := s.unsupported + c.report.unsupported
  sourceRevisions := Assoc.writeAll s.sourceRevisions c.revisions
  sources := s.sources ++ [c.state]
  cacheVersions := Assoc.writeAll s.cacheVersions c.version.toList

/-- `PoolResult`. -/
structure PoolResult where
  inventory : List Record
  nextCacheExpiry : Time
  accepted : Nat
  rejected : Nat
  unsupported : Nat
  sourceRevisions : Assoc Bytes ResourceRevision
  sources : List SourceState
  cacheVersions : Assoc Bytes CacheVersion
deriving DecidableEq

/-- The result at the end of the loop; an inventory with a conflict is dropped. -/
def PoolState.result (s : PoolState) : PoolResult :=
  ⟨((s.set.inventory P.unicode P.sum256).toOption).getD [], s.nextCacheExpiry, s.accepted,
    s.rejected, s.unsupported, s.sourceRevisions, s.sources, s.cacheVersions⟩

/-- The loop of `BuildPoolWithCache`. -/
def readSources (pool : ProxyPool) (hasCache : Bool) (now : Time) :
    List SubscriptionSource → PoolState → Reading (Except PoolFailure PoolState)
  | [], s => return .ok s
  | desired :: rest, s =>
    (readSource P pool hasCache now desired).attempt fun c =>
      readSources pool hasCache now rest (s.add c)

/-- `BuildPoolWithCache`. -/
def buildPoolWithCache (pool : ProxyPool) (hasCache : Bool) (now : Time) :
    Reading (Except PoolFailure PoolResult) :=
  if pool.namespace_ = [] || pool.uid = [] || pool.sources.length = 0 then
    return .error .request
  else
    (readSources P pool hasCache now pool.sources {}).attempt fun s => return .ok (s.result P)

end Sources

end Egressfox.Pool
