import Egressfox.Endpoint.Renew
import Egressfox.Lib.JsonValue

/-!
# Reading sing-box outbounds

`parseSingBoxOutbound` of `internal/source/singbox_json.go` and `parseSingBoxHysteria2` of
`internal/source/hysteria2_json.go`, with the kinds and codes of their diagnostics and the
checks in the order of the source.

The object of an outbound is a map of raw values, of which a key that is written twice has the
last value.  The raw values are read into structs, after `onlyJSONKeys` has restricted their
keys to the exact names, so that the tolerance of `encoding/json` for other spellings of a
field name has nothing to act on.
-/

namespace Egressfox.Source

open Lib Endpoint

/-- `DiagnosticKind`. -/
inductive DiagnosticKind where
  | malformed
  | unsupported
  | invalid
  | filtered
deriving DecidableEq, Repr

/-- Why an outbound is not accepted: the fields `kind` and `code` of `parseInput`. -/
structure Diagnostic where
  kind : DiagnosticKind
  code : String
deriving DecidableEq, Repr

/-- An accepted outbound: the fields `configuration` and `alias` of `parseInput`. -/
structure ParseInput where
  configuration : Configuration
  name : Bytes
deriving DecidableEq, Repr

def unsupported {α : Type} (code : String) : Except Diagnostic α := .error ⟨.unsupported, code⟩

def malformed {α : Type} (code : String) : Except Diagnostic α := .error ⟨.malformed, code⟩

def invalidInput {α : Type} (code : String) : Except Diagnostic α := .error ⟨.invalid, code⟩

/-- The result, or a diagnostic in the place of the error. -/
def orElse {ε α : Type} (result : Except ε α) (diagnostic : Except Diagnostic α) :
    Except Diagnostic α :=
  match result with
  | .ok value => .ok value
  | .error _ => diagnostic

/-- The value that was read, or a diagnostic. -/
def orFail {α : Type} (result : Option α) (diagnostic : Except Diagnostic α) :
    Except Diagnostic α :=
  match result with
  | some value => .ok value
  | none => diagnostic

/-- `onlyJSONKeys`. -/
def onlyJSONKeys (raw : Option JsonValue) (allowed : List String) : Bool :=
  match raw with
  | none => true
  | some value => value.unmarshalFields.any (JsonFields.only allowed)

/-- `json.Unmarshal` of a raw value that may be missing, which is an error. -/
def unmarshalRaw {α : Type} (unmarshal : α → JsonValue → Option α) (zero : α)
    (raw : Option JsonValue) : Option α := raw.bind (unmarshal zero)

/-- A field that is read only if it is there. -/
def unmarshalPresent {α : Type} (unmarshal : α → JsonValue → Option α) (zero : α)
    (raw : Option JsonValue) : Option α := raw.elim (some zero) (unmarshal zero)

/-- `strings.EqualFold` with `"host"`; the long s folds to an s. -/
def equalFoldHost (key : String) : Bool :=
  match key.toList with
  | [h, o, s, t] =>
    (h = 'h' || h = 'H') && (o = 'o' || o = 'O') && (s = 's' || s = 'S' || s = 'ſ') &&
      (t = 't' || t = 'T')
  | _ => false

/-- The order in which a `range` loop visits the entries of a map. -/
structure MapOrder where
  visit : List (String × Bytes) → List (String × Bytes)
  perm : ∀ entries, (visit entries).Perm entries

/-- The order in which the entries stand. -/
def MapOrder.written : MapOrder := ⟨id, .refl⟩

/-! ## Outbounds other than Hysteria2 -/

/-- The keys of an outbound. -/
def outboundKeys : List String :=
  ["type", "tag", "server", "server_port", "uuid", "password", "method", "security", "alter_id",
    "network", "tls", "transport", "flow", "username", "version"]

/-- The keys of a SOCKS or HTTP outbound. -/
def proxyKeys (kind : Bytes) : List String :=
  ["type", "tag", "server", "server_port", "username", "password"] ++
    (if kind = ascii "socks" then ["version", "network"] else []) ++
    (if kind = ascii "http" then ["tls"] else [])

/-- The loops over the keys. -/
def checkKeys (object : JsonFields) (kind : Bytes) : Except Diagnostic Unit :=
  if !JsonFields.only outboundKeys object then unsupported "singbox_outbound_option"
  else if (kind = ascii "socks" || kind = ascii "http") &&
      !JsonFields.only (proxyKeys kind) object then
    unsupported "singbox_proxy_option"
  else .ok ()

/-- The struct `record`. -/
structure OutboundRecord where
  tag : Bytes
  server : Bytes
  uuid : Bytes
  password : Bytes
  method : Bytes
  security : Bytes
  network : Bytes
  flow : Bytes
  username : Bytes
  version : Bytes
  serverPort : Int
  alterID : Int
deriving DecidableEq, Repr

/-- The reading of `record`. -/
def readRecord (object : JsonFields) : Except Diagnostic OutboundRecord := do
  let text (key : String) : Except Diagnostic Bytes :=
    orFail (unmarshalPresent JsonValue.unmarshalString [] (object.get? key))
      (malformed "singbox_field_type")
  let tag ← text "tag"
  let server ← text "server"
  let uuid ← text "uuid"
  let password ← text "password"
  let method ← text "method"
  let security ← text "security"
  let network ← text "network"
  let flow ← text "flow"
  let username ← text "username"
  let version ← text "version"
  let serverPort ← orFail
    (unmarshalRaw JsonValue.unmarshalInt 0 (object.get? "server_port")) (malformed "singbox_port")
  let alterID ← orFail
    (unmarshalPresent JsonValue.unmarshalInt 0 (object.get? "alter_id"))
    (malformed "singbox_alter_id")
  return ⟨tag, server, uuid, password, method, security, network, flow, username, version,
    serverPort, alterID⟩

/-- The checks of the options that a protocol does not have. -/
def checkOptions (object : JsonFields) (kind : Bytes) (record : OutboundRecord) :
    Except Diagnostic Unit :=
  if record.alterID ≠ 0 || record.flow ≠ [] &&
      (kind ≠ ascii "vless" || record.flow ≠ VLESSFlow.vision.string) then
    unsupported "singbox_protocol_option"
  else if kind ≠ ascii "socks" && (object.get? "version").isSome ||
      kind ≠ ascii "socks" && kind ≠ ascii "http" && (object.get? "username").isSome then
    unsupported "singbox_protocol_option"
  else if record.network ≠ [] && record.network ≠ ascii "tcp" then unsupported "singbox_network"
  else .ok ()

/-- The loop over the headers: the value of the last one. -/
def headerHost : List (String × Bytes) → Bytes → Except Diagnostic Bytes
  | [], host => .ok host
  | (key, value) :: rest, _ =>
    if !equalFoldHost key then unsupported "singbox_transport_option"
    else headerHost rest value

/-- The struct `settings` of a transport. -/
structure TransportSettings where
  type : Bytes
  path : Bytes
  serviceName : Bytes
  host : Option JsonValue
  headers : List (String × Bytes)

/-- The reading of `settings`. -/
def readTransportSettings (raw : JsonValue) : Option TransportSettings := do
  let fields ← raw.unmarshalFields
  let type ← fields.read JsonValue.unmarshalString [] "type"
  let path ← fields.read JsonValue.unmarshalString [] "path"
  let serviceName ← fields.read JsonValue.unmarshalString [] "service_name"
  let headers ← fields.read JsonValue.unmarshalStringMap [] "headers"
  return ⟨type, path, serviceName, fields.get? "host", headers⟩

/-- The switch over the type of a transport. -/
def newTransport (unicode : Unicode) (settings : TransportSettings) (host : Bytes) :
    Except Diagnostic Transport :=
  let failed {α : Type} : Except Diagnostic α := invalidInput "invalid_transport"
  if settings.type = ascii "ws" then
    if settings.host.isSome || settings.serviceName ≠ [] then
      unsupported "singbox_transport_option"
    else orElse (newWebSocketTransportWithHost unicode settings.path host) failed
  else if settings.type = ascii "http" then
    if settings.headers.length ≠ 0 || settings.serviceName ≠ [] then
      unsupported "singbox_transport_option"
    else
      match settings.host with
      | none => orElse (newHTTP2Transport unicode settings.path host) failed
      | some raw =>
        match raw.unmarshalStrings [] with
        | some [host] => orElse (newHTTP2Transport unicode settings.path host) failed
        | _ => unsupported "singbox_http_host"
  else if settings.type = ascii "httpupgrade" then
    if settings.headers.length ≠ 0 || settings.serviceName ≠ [] then
      unsupported "singbox_transport_option"
    else
      match unmarshalPresent JsonValue.unmarshalString host settings.host with
      | none => unsupported "singbox_upgrade_host"
      | some host => orElse (newHTTPUpgradeTransport unicode settings.path host) failed
  else if settings.type = ascii "grpc" then
    if settings.path ≠ [] || settings.host.isSome || settings.headers.length ≠ 0 then
      unsupported "singbox_transport_option"
    else orElse (newGRPCTransport settings.serviceName) failed
  else unsupported "unsupported_transport"

/-- The reading of the transport. -/
def readTransport (unicode : Unicode) (order : MapOrder) (raw : Option JsonValue) :
    Except Diagnostic Transport :=
  match raw with
  | none | some .null => .ok newTCPTransport
  | some value =>
    if !onlyJSONKeys (some value) ["type", "path", "headers", "host", "service_name"] then
      unsupported "singbox_transport_option"
    else do
      let settings ← orFail (readTransportSettings value) (unsupported "unsupported_transport")
      let host ← headerHost (order.visit settings.headers) []
      newTransport unicode settings host

/-- The struct `settings` of the TLS part. -/
structure TLSSettings where
  enabled : Bool
  serverName : Bytes
  insecure : Bool
  alpn : List Bytes
  utls : Option JsonValue
  reality : Option JsonValue

/-- The reading of `settings`. -/
def readTLSSettings (raw : JsonValue) : Option TLSSettings := do
  let fields ← raw.unmarshalFields
  let enabled ← fields.read JsonValue.unmarshalBool false "enabled"
  let serverName ← fields.read JsonValue.unmarshalString [] "server_name"
  let insecure ← fields.read JsonValue.unmarshalBool false "insecure"
  let alpn ← fields.read JsonValue.unmarshalStrings [] "alpn"
  return ⟨enabled, serverName, insecure, alpn, fields.get? "utls", fields.get? "reality"⟩

/-- The client fingerprint. -/
def readUTLS (raw : Option JsonValue) : Except Diagnostic Bytes :=
  match raw with
  | none => .ok []
  | some value =>
    if !onlyJSONKeys (some value) ["enabled", "fingerprint"] then
      unsupported "singbox_utls_option"
    else
      let settings : Option (Bool × Bytes) := do
        let fields ← value.unmarshalFields
        let enabled ← fields.read JsonValue.unmarshalBool false "enabled"
        let fingerprint ← fields.read JsonValue.unmarshalString [] "fingerprint"
        return (enabled, fingerprint)
      match settings with
      | some (true, fingerprint) => .ok fingerprint
      | _ => unsupported "singbox_utls_option"

/-- The Reality part. -/
def readReality (unicode : Unicode) (settings : TLSSettings) : Except Diagnostic (Option Reality) :=
  match settings.reality with
  | none => .ok none
  | some value =>
    if !onlyJSONKeys (some value) ["enabled", "public_key", "short_id"] then
      unsupported "singbox_reality_option"
    else
      let parts : Option (Bool × Bytes × Bytes) := do
        let fields ← value.unmarshalFields
        let enabled ← fields.read JsonValue.unmarshalBool false "enabled"
        let publicKey ← fields.read JsonValue.unmarshalString [] "public_key"
        let shortID ← fields.read JsonValue.unmarshalString [] "short_id"
        return (enabled, publicKey, shortID)
      match parts with
      | some (true, publicKey, shortID) =>
        if settings.serverName = [] || settings.insecure then
          unsupported "singbox_reality_option"
        else orElse ((newReality unicode publicKey shortID).map some)
          (invalidInput "invalid_reality")
      | _ => unsupported "singbox_reality_option"

/-- The reading of the TLS part. -/
def readTLS (unicode : Unicode) (raw : Option JsonValue) :
    Except Diagnostic (TLSConfig × SecurityOptions) :=
  match raw with
  | none | some .null => .ok (disabledTLS, {})
  | some value =>
    if !onlyJSONKeys (some value)
        ["enabled", "server_name", "insecure", "alpn", "utls", "reality"] then
      unsupported "singbox_tls_option"
    else do
      let settings ← orFail (readTLSSettings value) (unsupported "singbox_tls_option")
      if !settings.enabled then unsupported "singbox_tls_option"
      else
        let tls ← orElse (newTLS unicode settings.serverName settings.insecure)
          (invalidInput "invalid_tls")
        let fingerprint ← readUTLS settings.utls
        let reality ← readReality unicode settings
        let security ← orElse (newSecurityOptions settings.alpn fingerprint reality)
          (invalidInput "invalid_security_option")
        return (tls, security)

/-- `valueOr`. -/
def valueOr (value fallback : Bytes) : Bytes := if value = [] then fallback else value

/-- `emptyJSON`. -/
def emptyJSON (raw : JsonValue) : Bool := raw.isEmpty

/-- Security options that only direct VLESS admits. -/
def hasSecurityOptions (security : SecurityOptions) : Bool :=
  security.alpn.length ≠ 0 || security.fingerprint ≠ []

/-- The cases `"socks"` and `"http"`. -/
def newProxy (object : JsonFields) (kind : Bytes) (record : OutboundRecord) (address : Address)
    (transport : Transport) (tls : TLSConfig) : Except Diagnostic Configuration :=
  if record.uuid ≠ [] || record.method ≠ [] || record.security ≠ [] ||
      (object.get? "transport").any fun raw => !emptyJSON raw then
    unsupported "singbox_protocol_option"
  else if kind = ascii "socks" && record.version ≠ [] && record.version ≠ ascii "5" then
    unsupported "singbox_socks_version"
  else if kind = ascii "socks" && tls.enabled ||
      kind = ascii "http" && (object.get? "network").isSome then
    unsupported "singbox_proxy_option"
  else do
    let protocol : Protocol := if kind = ascii "socks" then .socks5 else .httpProxy
    let credential ← orElse (newProxyCredential protocol record.username record.password)
      (unsupported "singbox_proxy_auth")
    orElse (newExtendedConfiguration protocol address credential transport tls {} .none none)
      (invalidInput "invalid_endpoint")

/-- The switch over the kind of an outbound. -/
def newOutbound (object : JsonFields) (kind : Bytes) (record : OutboundRecord)
    (address : Address) (transport : Transport) (tls : TLSConfig) (security : SecurityOptions) :
    Except Diagnostic Configuration :=
  if kind = ascii "vless" then
    if record.password ≠ [] || record.method ≠ [] || record.security ≠ [] then
      unsupported "singbox_protocol_option"
    else
      orElse (do
        let credential ← newVLESSCredential record.uuid
        newExtendedConfiguration .vless address credential transport tls security
          (if record.flow ≠ [] then .vision else .none) none)
        (invalidInput "invalid_credential")
  else if kind = ascii "trojan" then
    if hasSecurityOptions security then unsupported "singbox_trojan_security_option"
    else if record.uuid ≠ [] || record.method ≠ [] || record.security ≠ [] then
      unsupported "singbox_protocol_option"
    else
      orElse (do
        let credential ← newTrojanCredential record.password
        newConfiguration .trojan address credential transport tls)
        (invalidInput "invalid_credential")
  else if kind = ascii "vmess" then
    if hasSecurityOptions security then unsupported "singbox_vmess_security_option"
    else if record.password ≠ [] || record.method ≠ [] then
      unsupported "singbox_protocol_option"
    else
      orElse (do
        let credential ← newVMessCredential record.uuid
        newVMessConfiguration address credential transport tls
          (valueOr record.security (ascii "auto")))
        (unsupported "singbox_vmess_option")
  else if kind = ascii "shadowsocks" then
    if record.uuid ≠ [] || record.security ≠ [] || transport.kind ≠ .tcp || tls.enabled then
      unsupported "singbox_ss_option"
    else
      orElse (do
        let credential ← newShadowsocksCredential record.password
        newShadowsocksConfiguration address credential record.method)
        (unsupported "singbox_ss_option")
  else newProxy object kind record address transport tls

/-! ## Hysteria2 -/

/-- The keys of a Hysteria2 outbound. -/
def hysteria2Keys : List String :=
  ["type", "tag", "server", "server_port", "server_ports", "password", "tls", "obfs", "up_mbps",
    "down_mbps"]

/-- The struct `record`. -/
structure Hysteria2Record where
  tag : Bytes
  server : Bytes
  port : Int
  password : Bytes
  up : Int
  down : Int
deriving DecidableEq, Repr

/-- The reading of `record`. -/
def readHysteria2Record (object : JsonFields) : Option Hysteria2Record := do
  let tag ← unmarshalPresent JsonValue.unmarshalString [] (object.get? "tag")
  let server ← unmarshalPresent JsonValue.unmarshalString [] (object.get? "server")
  let port ← unmarshalPresent JsonValue.unmarshalInt 0 (object.get? "server_port")
  let password ← unmarshalPresent JsonValue.unmarshalString [] (object.get? "password")
  let up ← unmarshalPresent JsonValue.unmarshalInt 0 (object.get? "up_mbps")
  let down ← unmarshalPresent JsonValue.unmarshalInt 0 (object.get? "down_mbps")
  return ⟨tag, server, port, password, up, down⟩

/-- The port: that of the record, or the first one of the list. -/
def readHysteria2Port (object : JsonFields) (port : Int) : Except Diagnostic Int :=
  match object.get? "server_ports" with
  | none => .ok port
  | some raw =>
    if port ≠ 0 then .ok port
    else
      match raw.unmarshalStrings [] with
      | some (entry :: _) => .ok (atoiOrZero ((entry.splitOn 58).headD []))
      | _ => malformed "hysteria2_ports"

/-- The TLS part. -/
def readHysteria2TLS (unicode : Unicode) (raw : Option JsonValue) :
    Except Diagnostic (TLSConfig × SecurityOptions) :=
  if !onlyJSONKeys raw ["enabled", "server_name", "insecure", "alpn"] then
    unsupported "singbox_hysteria2_option"
  else do
    let settings ← orFail (raw.bind readTLSSettings) (invalidInput "hysteria2_tls_required")
    if !settings.enabled then invalidInput "hysteria2_tls_required"
    else
      let tls ← orElse (newTLS unicode settings.serverName settings.insecure)
        (invalidInput "invalid_tls")
      let security ← orElse (newSecurityOptions settings.alpn [] none)
        (invalidInput "invalid_alpn")
      return (tls, security)

/-- The obfuscation password. -/
def readObfs (raw : Option JsonValue) : Except Diagnostic Bytes :=
  match raw with
  | none => .ok []
  | some value =>
    if !onlyJSONKeys (some value) ["type", "password"] then
      unsupported "singbox_hysteria2_option"
    else
      let settings : Option (Bytes × Bytes) := do
        let fields ← value.unmarshalFields
        let type ← fields.read JsonValue.unmarshalString [] "type"
        let password ← fields.read JsonValue.unmarshalString [] "password"
        return (type, password)
      match settings with
      | none => malformed "hysteria2_obfs"
      | some (type, password) =>
        if type ≠ ascii "salamander" || password = [] then
          unsupported "singbox_hysteria2_option"
        else .ok password

/-- The options. -/
def readHysteria2Options (object : JsonFields) (record : Hysteria2Record) (secret : Bytes) :
    Except Diagnostic Hysteria2Options :=
  match object.get? "server_ports" with
  | none =>
    orElse (newHysteria2Options record.up record.down secret) (invalidInput "hysteria2_options")
  | some raw =>
    match raw.unmarshalStrings [] with
    | none => malformed "hysteria2_ports"
    | some ports =>
      orElse (newHysteria2OptionsWithPorts record.up record.down secret ports)
        (invalidInput "hysteria2_options")

/-- `parseSingBoxHysteria2`. -/
def parseSingBoxHysteria2 (unicode : Unicode) (object : JsonFields) :
    Except Diagnostic ParseInput :=
  if !JsonFields.only hysteria2Keys object then unsupported "singbox_hysteria2_option"
  else do
    let record ← orFail (readHysteria2Record object) (malformed "singbox_hysteria2_field")
    if (object.get? "server_ports").isSome && (object.get? "server_port").isSome then
      unsupported "singbox_hysteria2_option"
    else
      let port ← readHysteria2Port object record.port
      let address ← orElse (newAddress unicode record.server port) (invalidInput "invalid_address")
      let credential ← orElse (newHysteria2Credential record.password)
        (invalidInput "invalid_credential")
      let (tls, security) ← readHysteria2TLS unicode (object.get? "tls")
      let secret ← readObfs (object.get? "obfs")
      let options ← readHysteria2Options object record secret
      if !options.includesPort address.port then unsupported "singbox_hysteria2_option"
      else
        let configuration ← orElse
          (newExtendedConfiguration .hysteria2 address credential newQUICTransport tls security
            .none (some options))
          (invalidInput "invalid_endpoint")
        return ⟨configuration, record.tag⟩

/-- The kinds of outbounds that are read as one record. -/
def outboundKinds : List Bytes :=
  [ascii "vless", ascii "trojan", ascii "vmess", ascii "shadowsocks", ascii "socks", ascii "http"]

/-- `parseSingBoxOutbound`. -/
def parseSingBoxOutbound (unicode : Unicode) (order : MapOrder) (object : JsonFields)
    (kind : Bytes) : Except Diagnostic ParseInput :=
  if kind = ascii "hysteria2" then parseSingBoxHysteria2 unicode object
  else if kind ∉ outboundKinds then unsupported "unsupported_protocol"
  else do
    checkKeys object kind
    let record ← readRecord object
    checkOptions object kind record
    let address ← orElse (newAddress unicode record.server record.serverPort)
      (invalidInput "invalid_address")
    let transport ← readTransport unicode order (object.get? "transport")
    let (tls, security) ← readTLS unicode (object.get? "tls")
    let configuration ← newOutbound object kind record address transport tls security
    return ⟨configuration, record.tag⟩

end Egressfox.Source
