import Egressfox.Endpoint.Configuration

/-!
# The public constructors of a configuration

The constructors of `internal/endpoint/configuration.go` and
`internal/endpoint/advanced.go`, with the fields and texts of their errors.

Where several constructors differ only in a constant, the common body is a definition
with that constant as a parameter and each constructor an instance of it.
-/

namespace Egressfox.Endpoint

open Lib

/-! ## Credentials -/

/-- `canonicalUUID`.  The digits are decoded into sixteen zero bytes; with more than four
hyphens there are fewer digits, and the last bytes stay zero. -/
def canonicalUUID (raw : Bytes) : Except Error Bytes :=
  if raw.length ≠ 36 || raw.getD 8 0 ≠ 45 || raw.getD 13 0 ≠ 45 || raw.getD 18 0 ≠ 45 ||
      raw.getD 23 0 ≠ 45 then
    invalid "vless.user_id" "must be a hyphenated UUID"
  else
    match hexDecode (raw.filter (· ≠ 45)) with
    | none => invalid "vless.user_id" "must be a hyphenated UUID"
    | some digits =>
      let decoded := digits ++ List.replicate (16 - digits.length) 0
      if decoded.all (· = 0) then invalid "vless.user_id" "must not be the nil UUID"
      else
        let encoded := hexEncode decoded
        let part (start stop : Nat) := (encoded.take stop).drop start
        .ok (part 0 8 ++ ascii "-" ++ part 8 12 ++ ascii "-" ++ part 12 16 ++ ascii "-" ++
          part 16 20 ++ ascii "-" ++ part 20 32)

/-- `NewVLESSCredential`. -/
def newVLESSCredential (userID : Bytes) : Except Error Credential := do
  let canonical ← canonicalUUID userID
  return { protocol := .vless, secret := some canonical }

/-- `NewVMessCredential`. -/
def newVMessCredential (userID : Bytes) : Except Error Credential := do
  let canonical ← canonicalUUID userID
  return { protocol := .vmess, secret := some canonical }

/-- `NewTrojanCredential`. -/
def newTrojanCredential (password : Bytes) : Except Error Credential :=
  if password = [] then invalid "trojan.password" "must not be empty"
  else if 4096 < password.length then invalid "trojan.password" "must not exceed 4096 bytes"
  else if !validUTF8 password then invalid "trojan.password" "must be valid UTF-8"
  else .ok { protocol := .trojan, secret := some password }

/-- The common body of `NewShadowsocksCredential` and `NewHysteria2Credential`. -/
def newPasswordCredential (protocol : Protocol) (field : String) (password : Bytes) :
    Except Error Credential :=
  if password = [] || 4096 < password.length || !validUTF8 password then
    invalid field "must be valid UTF-8 and 1–4096 bytes"
  else .ok { protocol := protocol, secret := some password }

/-- `NewShadowsocksCredential`. -/
def newShadowsocksCredential : Bytes → Except Error Credential :=
  newPasswordCredential .shadowsocks "shadowsocks.password"

/-- `NewHysteria2Credential`. -/
def newHysteria2Credential : Bytes → Except Error Credential :=
  newPasswordCredential .hysteria2 "hysteria2.password"

/-- The characters NUL, CR and LF. -/
def controlSeparators : Bytes := [0, 13, 10]

/-- `NewProxyCredential`. -/
def newProxyCredential (protocol : Protocol) (username password : Bytes) :
    Except Error Credential :=
  if protocol ≠ .socks5 && protocol ≠ .httpProxy then
    invalid "proxy.protocol" "must be SOCKS5 or HTTP proxy"
  else
    let maxPassword := if protocol = .socks5 then 255 else 4096
    if 255 < username.length || maxPassword < password.length || !validUTF8 username ||
        !validUTF8 password || decide (username = []) != decide (password = []) ||
        protocol = .httpProxy && 58 ∈ username then
      invalid "proxy.authentication" "must be an empty pair or valid username and password"
    else if containsAny username controlSeparators || containsAny password controlSeparators then
      invalid "proxy.authentication" "must not contain control separators"
    else .ok ⟨protocol, some password, username⟩

/-! ## Transports -/

/-- A C0 control character or DEL. -/
def isControl (character : Nat) : Bool := character < 0x20 || character = 0x7f

/-- `NewTCPTransport`. -/
def newTCPTransport : Transport := { kind := .tcp }

/-- `NewWebSocketTransport`. -/
def newWebSocketTransport (path : Bytes) : Except Error Transport :=
  if path.head? ≠ some 47 then
    invalid "transport.websocket.path" "must be explicit and start with a slash"
  else if 2048 < path.length then
    invalid "transport.websocket.path" "must not exceed 2048 bytes"
  else if !validUTF8 path then invalid "transport.websocket.path" "must be valid UTF-8"
  else if anyRune isControl path then
    invalid "transport.websocket.path" "must not contain control characters"
  else .ok { kind := .webSocket, webSocketPath := some path }

/-- A host that may be left out. -/
def normalizeOptionalHost (unicode : Unicode) (host : Bytes) (field : String) :
    Except Error Bytes :=
  if host = [] then .ok [] else (normalizeHost unicode host field).map Prod.fst

/-- `NewWebSocketTransportWithHost`. -/
def newWebSocketTransportWithHost (unicode : Unicode) (path host : Bytes) :
    Except Error Transport := do
  let transport ← newWebSocketTransport path
  let normalized ← normalizeOptionalHost unicode host "transport.websocket.host"
  return { transport with webSocketHost := normalized }

/-- `newHTTPTransport`. -/
def newHTTPTransport (unicode : Unicode) (kind : TransportKind) (path host : Bytes) :
    Except Error Transport :=
  if path.head? ≠ some 47 || 2048 < path.length || !validUTF8 path then
    invalid "transport.path" "must be an explicit UTF-8 absolute path"
  else if anyRune isControl path then
    invalid "transport.path" "must not contain control characters"
  else do
    let host ← normalizeOptionalHost unicode host "transport.host"
    return { kind := kind, advanced := some { path := path, host := host } }

/-- `NewHTTP2Transport`. -/
def newHTTP2Transport (unicode : Unicode) : Bytes → Bytes → Except Error Transport :=
  newHTTPTransport unicode .http2

/-- `NewHTTPUpgradeTransport`. -/
def newHTTPUpgradeTransport (unicode : Unicode) : Bytes → Bytes → Except Error Transport :=
  newHTTPTransport unicode .httpUpgrade

/-- `NewXHTTPTransport`. -/
def newXHTTPTransport (unicode : Unicode) (path host mode : Bytes) : Except Error Transport :=
  if mode ∉ xhttpModes then invalid "transport.xhttp.mode" "is unsupported"
  else do
    let transport ← newHTTPTransport unicode .xhttp path host
    return { transport with advanced := transport.advanced.map fun t => { t with mode := mode } }

/-- `NewGRPCTransport`. -/
def newGRPCTransport (service : Bytes) : Except Error Transport :=
  if service = [] || 1024 < service.length || !validUTF8 service ||
      containsAny service controlSeparators then
    invalid "transport.grpc.service" "must be a nonempty bounded service name"
  else .ok { kind := .grpc, advanced := some { service := service } }

/-- `NewQUICTransport`. -/
def newQUICTransport : Transport := { kind := .quic, advanced := some {} }

/-! ## TLS and security options -/

/-- `DisabledTLS`. -/
def disabledTLS : TLSConfig := {}

/-- `NewTLS`. -/
def newTLS (unicode : Unicode) (serverName : Bytes) (insecureSkipVerify : Bool) :
    Except Error TLSConfig := do
  let serverName ← normalizeOptionalHost unicode serverName "tls.server_name"
  return ⟨true, serverName, insecureSkipVerify⟩

/-- The server name of an enabled TLS configuration defaults to the endpoint host. -/
def TLSConfig.resolve (tls : TLSConfig) (address : Address) : TLSConfig :=
  if tls.enabled && tls.serverName = [] then { tls with serverName := address.host } else tls

/-- `NewReality`. -/
def newReality (unicode : Unicode) (publicKey shortID : Bytes) : Except Error Reality :=
  match decodeDigits 6 base64URL publicKey with
  | none => invalid "reality.public_key" "must be a canonical 32-byte base64url key"
  | some decoded =>
    if decoded.length ≠ 32 || encodeDigits 6 base64URL decoded ≠ publicKey then
      invalid "reality.public_key" "must be a canonical 32-byte base64url key"
    else if 16 < shortID.length || shortID.length % 2 ≠ 0 then
      invalid "reality.short_id" "must contain 0–8 hexadecimal bytes"
    else
      match hexDecode shortID with
      | none => invalid "reality.short_id" "must be hexadecimal"
      | some _ => .ok ⟨publicKey, toLower unicode shortID⟩

/-- The ALPN loop of `NewSecurityOptions`, with the names already seen. -/
def checkALPN : List Bytes → List Bytes → Except Error Unit
  | _, [] => .ok ()
  | seen, value :: rest =>
    if value = [] || 255 < value.length || !validUTF8 value || value ∈ seen then
      invalid "security.alpn" "must contain distinct bounded protocol names"
    else if anyRune (fun r => r < 0x21 || 0x7e < r) value then
      invalid "security.alpn" "must contain printable ASCII without spaces"
    else checkALPN (value :: seen) rest

/-- The admitted client fingerprints. -/
def fingerprints : List Bytes :=
  [ascii "chrome", ascii "firefox", ascii "safari", ascii "ios", ascii "android", ascii "edge",
    ascii "360", ascii "qq"]

/-- `NewSecurityOptions`. -/
def newSecurityOptions (alpn : List Bytes) (fingerprint : Bytes) (reality : Option Reality) :
    Except Error SecurityOptions :=
  if 8 < alpn.length then invalid "security.alpn" "too many protocol names"
  else do
    checkALPN [] alpn
    if fingerprint ≠ [] && fingerprint ∉ fingerprints then
      invalid "security.fingerprint" "is not in the admitted common set"
    else if reality.any fun r => r.publicKey = [] || fingerprint = [] then
      invalid "security.reality" "requires a public key and client fingerprint"
    else return ⟨alpn, fingerprint, reality⟩

/-! ## Hysteria2 options -/

/-- `NewHysteria2Options`. -/
def newHysteria2Options (upMbps downMbps : Int) (salamanderPassword : Bytes) :
    Except Error Hysteria2Options :=
  if upMbps < 0 || downMbps < 0 || 100000 < upMbps || 100000 < downMbps ||
      decide (upMbps = 0) != decide (downMbps = 0) then
    invalid "hysteria2.bandwidth" "must be both zero or both positive and bounded"
  else if 4096 < salamanderPassword.length || !validUTF8 salamanderPassword then
    invalid "hysteria2.obfs" "must be bounded UTF-8"
  else
    .ok { upMbps := upMbps, downMbps := downMbps,
          obfsPassword := if salamanderPassword = [] then none else some salamanderPassword }

/-- A canonical decimal port number of at least `low`. -/
def parsePort (low : Int) (text : Bytes) : Option Int :=
  (atoi text).filter fun port => low ≤ port && port ≤ 65535 && itoa port = text

/-- One entry of the port list: a port, or a range written with a colon. -/
def parsePortRange (entry : Bytes) : Except Error (Int × Int) :=
  match entry.splitOn 58 with
  | [single] =>
    match parsePort 1 single with
    | some first => .ok (first, first)
    | none => invalid "hysteria2.ports" "invalid port"
  | [low, high] =>
    match parsePort 1 low with
    | none => invalid "hysteria2.ports" "invalid port"
    | some first =>
      match parsePort first high with
      | none => invalid "hysteria2.ports" "invalid range"
      | some last => .ok (first, last)
  | _ => invalid "hysteria2.ports" "invalid range"

/-- The text of a port range. -/
def portRangeText (first last : Int) : Bytes :=
  if last = first then itoa first else itoa first ++ ascii ":" ++ itoa last

/-- The loop of `NewHysteria2OptionsWithPorts`, with the number of ports counted so far. -/
def collectPorts : Int → List Bytes → Except Error (List Bytes)
  | _, [] => .ok []
  | count, entry :: rest => do
      let (first, last) ← parsePortRange entry
      let count := count + (last - first + 1)
      if 256 < count then invalid "hysteria2.ports" "too many destination ports"
      else
        let collected ← collectPorts count rest
        return portRangeText first last :: collected

/-- `NewHysteria2OptionsWithPorts`. -/
def newHysteria2OptionsWithPorts (upMbps downMbps : Int) (salamanderPassword : Bytes)
    (ranges : List Bytes) : Except Error Hysteria2Options := do
  let options ← newHysteria2Options upMbps downMbps salamanderPassword
  if ranges.length = 0 || 16 < ranges.length then
    invalid "hysteria2.ports" "requires 1–16 port entries"
  else
    let portRanges ← collectPorts 0 ranges
    return { options with portRanges := portRanges }

/-! ## Configurations -/

/-- The configuration if it is valid, an error otherwise. -/
def validated (c : Configuration) (problem : String) : Except Error Configuration :=
  if c.valid then .ok c else invalid "configuration" problem

/-- `NewConfiguration`. -/
def newConfiguration (protocol : Protocol) (address : Address) (credential : Credential)
    (transport : Transport) (tls : TLSConfig) : Except Error Configuration :=
  if protocol ≠ .vless && protocol ≠ .trojan then invalid "protocol" "is not supported"
  else if !address.valid then invalid "address" "must be constructed with NewAddress"
  else if !credential.valid || credential.protocol ≠ protocol then
    invalid "credential" "does not match the endpoint protocol"
  else if !transport.valid then invalid "transport" "is not supported"
  else if protocol = .trojan && !tls.enabled then invalid "tls" "is required for Trojan"
  else
    validated { protocol := protocol, address := address, credential := credential,
                transport := transport, tls := tls.resolve address }
      "has contradictory connection options"

/-- `newAdditionalConfiguration`. -/
def newAdditionalConfiguration (protocol : Protocol) (address : Address)
    (credential : Credential) (transport : Transport) (tls : TLSConfig) (method : Bytes) :
    Except Error Configuration :=
  if !address.valid || !credential.valid || credential.protocol ≠ protocol ||
      !transport.valid then
    invalid "configuration" "contains invalid connection fields"
  else
    validated { protocol := protocol, address := address, credential := credential,
                transport := transport, tls := tls.resolve address, method := method }
      "has contradictory connection options"

/-- The payload security settings admitted for VMess. -/
def vmessMethods : List Bytes :=
  [ascii "auto", ascii "aes-128-gcm", ascii "chacha20-poly1305", ascii "none"]

/-- `NewVMessConfiguration`. -/
def newVMessConfiguration (address : Address) (credential : Credential) (transport : Transport)
    (tls : TLSConfig) (method : Bytes) : Except Error Configuration :=
  if method ∉ vmessMethods then invalid "vmess.security" "is unsupported"
  else newAdditionalConfiguration .vmess address credential transport tls method

/-- The methods admitted for Shadowsocks. -/
def shadowsocksMethods : List Bytes :=
  [ascii "aes-128-gcm", ascii "aes-256-gcm", ascii "chacha20-ietf-poly1305"]

/-- `NewShadowsocksConfiguration`. -/
def newShadowsocksConfiguration (address : Address) (credential : Credential) (method : Bytes) :
    Except Error Configuration :=
  if method ∉ shadowsocksMethods then invalid "shadowsocks.method" "is unsupported"
  else newAdditionalConfiguration .shadowsocks address credential newTCPTransport disabledTLS method

/-- The connection has none of the options that need an advanced part. -/
def isOldConnection (transport : Transport) (security : SecurityOptions) (flow : VLESSFlow)
    (hysteria : Option Hysteria2Options) : Bool :=
  transport.advanced = none && flow = .none && hysteria = none && security.alpn.length = 0 &&
    security.fingerprint = [] && security.reality = none

/-- The part of `newExtendedConfiguration` behind the switch. -/
def extendedConfiguration (protocol : Protocol) (address : Address) (credential : Credential)
    (transport : Transport) (tls : TLSConfig) (security : SecurityOptions) (flow : VLESSFlow)
    (hysteria : Option Hysteria2Options) (method : Bytes) : Except Error Configuration :=
  validated { protocol := protocol, address := address, credential := credential,
              transport := transport, tls := tls.resolve address, method := method,
              advanced := some ⟨flow, security, hysteria⟩ }
    "has contradictory protocol, transport or security options"

/-- `newExtendedConfiguration`. -/
def newExtendedConfigurationWith (protocol : Protocol) (address : Address)
    (credential : Credential) (transport : Transport) (tls : TLSConfig)
    (security : SecurityOptions) (flow : VLESSFlow) (hysteria : Option Hysteria2Options)
    (method : Bytes) : Except Error Configuration :=
  if !address.valid || !credential.valid || credential.protocol ≠ protocol ||
      !transport.valid then
    invalid "configuration" "contains invalid connection fields"
  else if isOldConnection transport security flow hysteria then
    -- an old connection keeps its encoding whichever constructor is used
    match protocol with
    | .vless | .trojan => newConfiguration protocol address credential transport tls
    | .vmess => newVMessConfiguration address credential transport tls method
    | _ =>
      extendedConfiguration protocol address credential transport tls security flow hysteria
        method
  else
    extendedConfiguration protocol address credential transport tls security flow hysteria method

/-- `NewExtendedConfiguration`. -/
def newExtendedConfiguration (protocol : Protocol) (address : Address) (credential : Credential)
    (transport : Transport) (tls : TLSConfig) (security : SecurityOptions) (flow : VLESSFlow)
    (hysteria : Option Hysteria2Options) : Except Error Configuration :=
  newExtendedConfigurationWith protocol address credential transport tls security flow hysteria []

/-- `NewExtendedVMessConfiguration`. -/
def newExtendedVMessConfiguration (address : Address) (credential : Credential)
    (transport : Transport) (tls : TLSConfig) (security : SecurityOptions) (method : Bytes) :
    Except Error Configuration :=
  if method ∉ vmessMethods then invalid "vmess.security" "is unsupported"
  else
    newExtendedConfigurationWith .vmess address credential transport tls security .none none method

/-- `Configuration.WithAddress`. -/
def Configuration.withAddress (c : Configuration) (address : Address) :
    Except Error Configuration :=
  if !c.valid || !address.valid then invalid "configuration.address" "is invalid"
  else .ok { c with address := address }

end Egressfox.Endpoint
