import Egressfox.Source.Parse

/-!
# The request context of an HTTP source

`internal/operator/http_profile.go`: the identity a client shows to a subscription provider and
the headers it sends.  `http.Header` is a map from canonical names to values; every list of
values the program builds has one element.

All characters that a name or an identity may have are ASCII, so a scan over runes is a scan
over bytes.
-/

namespace Egressfox.Pool

open Lib

/-- The codes of `PoolError`. -/
inductive PoolFailure where
  | request
  | sourceVariant
  | sourceUnavailable
  | sourceKeyMissing
  | sourceID
  | sourceLimits
  | sourceAcquire
  | sourceRejected
  | snapshotRejected
  | sourceAuthorization
  | clientIdentity
  | clientIdentityConflict
  | profileCleanConflict
  | profileMode
  | profileHeaderValue
  | profileHeaderLimit
  | profileHeaderInvalid
  | profileHeaderReserved
  | profileHeaderDuplicate
  | sourceHeaderLimit
  | sourceHeaderName
  | sourceHeaderDuplicate
  | sourceHeaderValue
  | sourceHTTP
deriving DecidableEq, Repr

/-! ## Client identities -/

/-- `strings.Cut` at a single byte. -/
def cut (separator : Byte) (text : Bytes) : Option (Bytes × Bytes) :=
  if separator ∈ text then
    some (text.takeWhile (· ≠ separator), (text.dropWhile (· ≠ separator)).tail)
  else none

/-- An ASCII letter or digit. -/
def isAlphanumeric (ch : Byte) : Bool :=
  97 ≤ ch.val && ch.val ≤ 122 || 65 ≤ ch.val && ch.val ≤ 90 || 48 ≤ ch.val && ch.val ≤ 57

/-- `validIdentityPart`. -/
def validIdentityPart (value : Bytes) (max : Nat) : Bool :=
  value ≠ [] && value.length ≤ max && value.all fun ch => isAlphanumeric ch || ch ∈ ascii "-_."

/-- `clientIdentity`. -/
def clientIdentity (poolUID sourceID explicit : Bytes) : Except PoolFailure Bytes :=
  if explicit = [] then .ok (ascii "legacy:" ++ poolUID ++ ascii "/" ++ sourceID)
  else if explicit.length > 160 then .error .clientIdentity
  else
    match cut 58 explicit with
    | none => .error .clientIdentity
    | some (kind, value) =>
      if kind = ascii "legacy" then
        match cut 47 value with
        | none => .error .clientIdentity
        | some (uid, previousID) =>
          if !validIdentityPart uid 80 || !validIdentityPart previousID 63 then
            .error .clientIdentity
          else .ok explicit
      else if kind ≠ ascii "stable" || !validIdentityPart value 128 then .error .clientIdentity
      else .ok explicit

/-- `stableHWID`.  An identity of the kind `legacy` has a slash. -/
def stableHWID (sum256 : Bytes → Digest) (identity : Bytes) : Bytes :=
  let legacy := ascii "legacy:"
  let material :=
    if legacy.isPrefixOf identity then
      let (uid, id) := (cut 47 (identity.drop legacy.length)).getD ([], [])
      ascii "egressfox-http-client-hwid-v1" ++ [0] ++ uid ++ [0] ++ id
    else ascii "egressfox-http-client-hwid-v2" ++ [0] ++ identity
  let digest := ((sum256 material).val.modify 6 fun b => Fin.ofNat 256 (b.val % 16 + 128)).modify 8
    fun b => Fin.ofNat 256 (b.val % 64 + 128)
  let value := hexEncode (digest.take 16)
  let group (start stop : Nat) : Bytes := (value.take stop).drop start
  ((ascii "-").intercalate [group 0 8, group 8 12, group 12 16, group 16 20, group 20 32]).map
    upperASCII

/-! ## Headers -/

/-- `http.Header`. -/
abbrev Headers := Assoc Bytes Bytes

/-- A byte of a header name. -/
def isTokenByte (ch : Byte) : Bool := isAlphanumeric ch || ch ∈ ascii "!#$%&'*+-.^_`|~"

/-- `validHeaderName`. -/
def validHeaderName (value : Bytes) : Bool :=
  value ≠ [] && value.length ≤ 128 && value.all isTokenByte

/-- `validHeaderValue`. -/
def validHeaderValue (value : Bytes) (max : Nat) : Bool :=
  value.length ≤ max && value.all fun ch => !(ch.val < 0x20 || ch = 0x7f)

/-- The capitals of a canonical header name. -/
def capitalize : Bool → Bytes → Bytes
  | _, [] => []
  | upper, ch :: rest =>
    (if upper then upperASCII ch else lowerASCII ch) :: capitalize (ch = 45) rest

/-- `http.CanonicalHeaderKey`. -/
def canonicalHeaderKey (name : Bytes) : Bytes :=
  if name.all isTokenByte then capitalize true name else name

/-- `Header.Set`. -/
def Headers.set (headers : Headers) (key value : Bytes) : Headers :=
  headers.insert (canonicalHeaderKey key) value

def reservedHeaders : List Bytes :=
  ["user-agent", "x-hwid", "x-device-os", "x-ver-os", "x-device-model", "host", "connection",
    "content-length", "transfer-encoding", "proxy-authorization", "set-cookie", "accept-encoding",
    "if-none-match", "if-modified-since", "referer", "upgrade", "te", "trailer"].map ascii

/-- `reservedTransportOrProfileHeader`. -/
def reservedTransportOrProfileHeader (unicode : Unicode) (name : Bytes) : Bool :=
  toLower unicode name ∈ reservedHeaders

/-- `likelyCredentialHeader`. -/
def likelyCredentialHeader (unicode : Unicode) (name : Bytes) : Bool :=
  ["authorization", "cookie", "token", "api-key", "secret", "password"].any fun word =>
    decide (ascii word <:+: toLower unicode name)

/-- `HTTPClientProfile`.  The entries of `headers` are in the order in which the map is visited. -/
structure HTTPClientProfile where
  mode : Bytes := []
  userAgent : Bytes := []
  hwid : Bytes := []
  deviceOS : Bytes := []
  osVersion : Bytes := []
  deviceModel : Bytes := []
  headers : List (Bytes × Bytes) := []
deriving DecidableEq, Repr

/-- The headers of the modes. -/
def modeHeaders (sum256 : Bytes → Digest) (identity : Bytes) (profile : Option HTTPClientProfile) :
    Except PoolFailure Headers :=
  let mode := ((profile.map HTTPClientProfile.mode).filter (· ≠ [])).getD (ascii "Default")
  if mode = ascii "Default" then
    .ok <| [("User-Agent", ascii "Happ/1.0"), ("X-Hwid", stableHWID sum256 identity),
      ("X-Device-Os", ascii "iOS"), ("X-Ver-Os", ascii "18.3"),
      ("X-Device-Model", ascii "iPhone 14 Pro Max")].foldl
        (fun headers entry => headers.set (ascii entry.1) entry.2) (∅ : Headers)
  else if mode = ascii "Clean" then
    if profile.any fun p => p.userAgent ≠ [] || p.hwid ≠ [] || p.deviceOS ≠ [] ||
        p.osVersion ≠ [] || p.deviceModel ≠ [] || p.headers.length ≠ 0 then
      .error .profileCleanConflict
    else .ok ((∅ : Headers).set (ascii "User-Agent") [])
  else .error .profileMode

/-- A field of the profile in the place of the header of its mode. -/
def setProfileField (headers : Headers) (entry : String × Bytes) : Except PoolFailure Headers :=
  if entry.2 = [] then .ok headers
  else if !validHeaderValue entry.2 256 then .error .profileHeaderValue
  else .ok (headers.set (ascii entry.1) entry.2)

/-- One step of the loop over the headers of a profile. -/
def setProfileHeader (unicode : Unicode) (headers : Headers) (entry : Bytes × Bytes) :
    Except PoolFailure Headers :=
  if !validHeaderName entry.1 || !validHeaderValue entry.2 1024 then .error .profileHeaderInvalid
  else
    let canonical := canonicalHeaderKey entry.1
    if reservedTransportOrProfileHeader unicode canonical ||
        likelyCredentialHeader unicode canonical then .error .profileHeaderReserved
    else if (headers.lookup canonical).isSome then .error .profileHeaderDuplicate
    else .ok (headers.set canonical entry.2)

/-- `profileHeaders`. -/
def profileHeaders (unicode : Unicode) (sum256 : Bytes → Digest) (identity : Bytes)
    (profile : Option HTTPClientProfile) : Except PoolFailure Headers := do
  let headers ← modeHeaders sum256 identity profile
  match profile with
  | none => return headers
  | some profile =>
    let headers ← [("User-Agent", profile.userAgent), ("X-Hwid", profile.hwid),
      ("X-Device-Os", profile.deviceOS), ("X-Ver-Os", profile.osVersion),
      ("X-Device-Model", profile.deviceModel)].foldlM setProfileField headers
    if profile.headers.length > 16 then .error .profileHeaderLimit
    else profile.headers.foldlM (setProfileHeader unicode) headers

end Egressfox.Pool
