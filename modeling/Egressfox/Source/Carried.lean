import Egressfox.Endpoint.Injective
import Egressfox.Source.SingBox

/-!
# What an accepted outbound carries

The options of a sing-box outbound, and that the configuration of an accepted outbound has them.

`Carries` says this option by option, in terms of what stands in the JSON object.  It holds for
every accepted object except where the parser reads an option and then leaves it aside
(`carries_iff`): the security options of an HTTP proxy, all but one of several `Host` headers,
and the hyphens that stand for digits of a user ID.
-/

namespace Egressfox.Source

open Lib Endpoint

/-! ## Options in the object -/

/-- A value in the object of an outbound, or the given one if there is none. -/
def optionOf {α : Type} (unmarshal : α → JsonValue → Option α) (zero : α) (object : JsonFields)
    (key : String) : α := (unmarshalPresent unmarshal zero (object.get? key)).getD zero

def textOption (object : JsonFields) (key : String) : Bytes :=
  optionOf JsonValue.unmarshalString [] object key

def intOption (object : JsonFields) (key : String) : Int :=
  optionOf JsonValue.unmarshalInt 0 object key

/-- A raw value in an object. -/
def nested (raw : JsonValue) (key : String) : Option JsonValue :=
  raw.unmarshalFields.bind fun fields => fields.get? key

/-- A value in an object, or the given one if there is none. -/
def nestedValue {α : Type} (unmarshal : α → JsonValue → Option α) (zero : α) (raw : JsonValue)
    (key : String) : α :=
  (raw.unmarshalFields.bind fun fields => fields.read unmarshal zero key).getD zero

def nestedText (raw : JsonValue) (key : String) : Bytes :=
  nestedValue JsonValue.unmarshalString [] raw key

def nestedFlag (raw : JsonValue) (key : String) : Bool :=
  nestedValue JsonValue.unmarshalBool false raw key

def nestedTexts (raw : JsonValue) (key : String) : List Bytes :=
  nestedValue JsonValue.unmarshalStrings [] raw key

def nestedMap (raw : JsonValue) (key : String) : List (String × Bytes) :=
  nestedValue JsonValue.unmarshalStringMap [] raw key

/-- The fingerprint in a TLS object. -/
def fingerprintOption (raw : JsonValue) : Bytes :=
  ((nested raw "utls").map fun value => nestedText value "fingerprint").getD []

/-- The Reality part in a TLS object, with the short ID in its canonical case. -/
def realityOption (unicode : Unicode) (raw : JsonValue) : Option Reality :=
  (nested raw "reality").map fun value =>
    ⟨nestedText value "public_key", toLower unicode (nestedText value "short_id")⟩

/-- The configuration has the options of a TLS object. -/
structure CarriesTLS (unicode : Unicode) (raw : JsonValue) (c : Configuration) : Prop where
  enabled : c.tls.enabled = true
  serverName : ∃ name, normalizeOptionalHost unicode (nestedText raw "server_name")
    "tls.server_name" = .ok name ∧ c.tls.serverName = valueOr name c.address.host
  insecure : c.tls.insecureSkipVerify = nestedFlag raw "insecure"
  alpn : c.securityOptions.alpn = nestedTexts raw "alpn"
  fingerprint : c.securityOptions.fingerprint = fingerprintOption raw
  reality : c.securityOptions.reality = realityOption unicode raw

/-- The kind of a transport with its name in sing-box. -/
def transportKinds : List (Bytes × TransportKind) :=
  [(ascii "ws", .webSocket), (ascii "http", .http2), (ascii "httpupgrade", .httpUpgrade),
    (ascii "grpc", .grpc)]

/-- The path of a transport, in the field of its kind. -/
def anyPath (t : Transport) : Bytes :=
  if t.kind = .webSocket then t.webSocketPathText else t.path

/-- The host of a transport, in the field of its kind. -/
def anyHost (t : Transport) : Bytes := if t.kind = .webSocket then t.webSocketHost else t.host

/-- The transport has the options of a transport object. -/
structure CarriesTransport (unicode : Unicode) (raw : JsonValue) (t : Transport) : Prop where
  kind : (nestedText raw "type", t.kind) ∈ transportKinds
  path : anyPath t = nestedText raw "path"
  service : t.service = nestedText raw "service_name"
  headers : ∀ header ∈ nestedMap raw "headers", equalFoldHost header.1 = true ∧
    normalizeOptionalHost unicode header.2 "transport.websocket.host" = .ok (anyHost t)
  host : ∀ value, nested raw "host" = some value → ∃ host,
    (value.unmarshalStrings [] = some [host] ∨ value.unmarshalString [] = some host) ∧
      normalizeOptionalHost unicode host "transport.host" = .ok (anyHost t)

/-- The protocol of a kind of outbound. -/
def outboundProtocols : List (Bytes × Protocol) :=
  [(ascii "vless", .vless), (ascii "trojan", .trojan), (ascii "vmess", .vmess),
    (ascii "shadowsocks", .shadowsocks), (ascii "socks", .socks5), (ascii "http", .httpProxy),
    (ascii "hysteria2", .hysteria2)]

/-- The configuration has every connection option of the object. -/
structure Carries (unicode : Unicode) (object : JsonFields) (kind : Bytes) (c : Configuration) :
    Prop where
  protocol : (kind, c.protocol) ∈ outboundProtocols
  server : normalizeHost unicode (textOption object "server") "address.host" =
    .ok (c.address.host, c.address.kind)
  port : object.get? "server_ports" = none →
    (c.address.port.val : Int) = intOption object "server_port"
  tls : ∀ raw, object.get? "tls" = some raw → raw ≠ .null → CarriesTLS unicode raw c
  transport : ∀ raw, object.get? "transport" = some raw → raw ≠ .null →
    CarriesTransport unicode raw c.transport
  flow : c.flow.string = textOption object "flow"
  method : textOption object "method" ≠ [] → c.method = textOption object "method"
  security : textOption object "security" ≠ [] → c.method = textOption object "security"
  username : c.credential.username = textOption object "username"
  password : textOption object "password" ≠ [] → c.credential.reveal = textOption object "password"
  uuid : textOption object "uuid" ≠ [] → c.credential.reveal.filter (· ≠ 45) =
    ((textOption object "uuid").filter (· ≠ 45)).map lowerASCII
  bandwidth : ∀ options ∈ c.hysteria2, options.upMbps = intOption object "up_mbps" ∧
    options.downMbps = intOption object "down_mbps"
  obfs : ∀ raw, object.get? "obfs" = some raw → ∃ options ∈ c.hysteria2,
    options.revealSalamanderPassword = nestedText raw "password"
  ports : ∀ raw, object.get? "server_ports" = some raw → ∃ options ∈ c.hysteria2, ∃ texts,
    raw.unmarshalStrings [] = some texts ∧ collectPorts 0 texts = .ok options.portRanges

/-- The objects of which nothing is left aside: an HTTP proxy without security options, `Host`
headers that all name one host, and a user ID with all its digits. -/
structure Plain (unicode : Unicode) (object : JsonFields) (kind : Bytes) : Prop where
  security : kind = ascii "http" → ∀ raw, object.get? "tls" = some raw →
    nestedTexts raw "alpn" = [] ∧ fingerprintOption raw = [] ∧ nested raw "reality" = none
  headers : ∀ raw, object.get? "transport" = some raw → ∃ host,
    ∀ header ∈ nestedMap raw "headers",
      normalizeOptionalHost unicode header.2 "transport.websocket.host" = .ok host
  uuid : textOption object "uuid" ≠ [] → ((textOption object "uuid").filter (· ≠ 45)).length = 32

/-! ## Results of the checks -/

section Results

variable {ε α : Type}

theorem ite_error_eq_ok {p : Prop} [Decidable p] {e : ε} {x : Except ε α} {a : α}
    (h : (if p then .error e else x) = .ok a) : ¬p ∧ x = .ok a := by
  split_ifs at h with hp
  exact ⟨hp, h⟩

theorem orElse_eq_ok {result : Except ε α} {d : Diagnostic} {a : α}
    (h : orElse result (.error d) = .ok a) : result = .ok a := by
  cases result with
  | ok value => exact congrArg Except.ok (Except.ok.inj h)
  | error e => cases h

theorem orFail_eq_ok {result : Option α} {d : Diagnostic} {a : α}
    (h : orFail result (.error d) = .ok a) : result = some a := by
  cases result with
  | some value => exact congrArg some (Except.ok.inj h)
  | none => cases h

end Results

variable {key : String} {allowed : List String} {tls : TLSConfig} {security : SecurityOptions}
  {host secret : Bytes} {t : Transport} {record : OutboundRecord}

/-! ## Reading the fields -/

section Reading

variable {unicode : Unicode} {object : JsonFields} {raw : JsonValue}

theorem nestedValue_eq {α : Type} {unmarshal : α → JsonValue → Option α} {zero value : α}
    {fields : JsonFields} (hfields : raw.unmarshalFields = some fields)
    (h : fields.read unmarshal zero key = some value) :
    nestedValue unmarshal zero raw key = value := by
  rw [nestedValue, hfields, Option.bind_some, h, Option.getD_some]

theorem nested_eq {fields : JsonFields} (hfields : raw.unmarshalFields = some fields) :
    nested raw key = fields.get? key := by
  rw [nested, hfields, Option.bind_some]

theorem optionOf_eq {α : Type} {unmarshal : α → JsonValue → Option α} {zero value : α}
    (h : unmarshalPresent unmarshal zero (object.get? key) = some value) :
    optionOf unmarshal zero object key = value := by
  rw [optionOf, h, Option.getD_some]

/-- A key that is not allowed is not there. -/
theorem get?_eq_none (honly : JsonFields.only allowed object = true) (hkey : key ∉ allowed) :
    object.get? key = none := by
  have hvalues : object.values key = [] := by
    rw [JsonFields.values, List.filterMap_eq_nil_iff]
    intro field hfield
    have hallowed := List.all_eq_true.mp honly field hfield
    rw [if_neg]
    rintro rfl
    exact hkey (by simpa using hallowed)
  rw [JsonFields.get?, hvalues, List.getLast?_nil]

/-- Of an option that is not there everything can be said. -/
theorem of_absent {α : Type} {p : α → Prop} {option : Option α} (h : option = none) :
    ∀ value, option = some value → p value := by
  rintro value hvalue
  rw [h] at hvalue
  cases hvalue

theorem textOption_eq_nil (honly : JsonFields.only allowed object = true) (hkey : key ∉ allowed) :
    textOption object key = [] := by
  rw [textOption, optionOf, get?_eq_none honly hkey]
  rfl

theorem nested_eq_none (honly : onlyJSONKeys (some raw) allowed = true) (hkey : key ∉ allowed) :
    nested raw key = none := by
  unfold onlyJSONKeys at honly
  rw [Option.any_eq_true] at honly
  obtain ⟨fields, hfields, honly⟩ := honly
  rw [nested_eq hfields]
  exact get?_eq_none honly hkey

theorem readTLSSettings_eq {settings : TLSSettings} (h : readTLSSettings raw = some settings) :
    settings = ⟨nestedFlag raw "enabled", nestedText raw "server_name", nestedFlag raw "insecure",
      nestedTexts raw "alpn", nested raw "utls", nested raw "reality"⟩ := by
  obtain ⟨fields, hfields, h⟩ := Option.bind_eq_some_iff.mp h
  obtain ⟨enabled, henabled, h⟩ := Option.bind_eq_some_iff.mp h
  obtain ⟨serverName, hserverName, h⟩ := Option.bind_eq_some_iff.mp h
  obtain ⟨insecure, hinsecure, h⟩ := Option.bind_eq_some_iff.mp h
  obtain ⟨alpn, halpn, h⟩ := Option.bind_eq_some_iff.mp h
  rw [← Option.some.inj h, nestedFlag, nestedFlag, nestedText, nestedTexts,
    nestedValue_eq hfields henabled, nestedValue_eq hfields hserverName,
    nestedValue_eq hfields hinsecure, nestedValue_eq hfields halpn, nested_eq hfields,
    nested_eq hfields]

theorem readTransportSettings_eq {settings : TransportSettings}
    (h : readTransportSettings raw = some settings) :
    settings = ⟨nestedText raw "type", nestedText raw "path", nestedText raw "service_name",
      nested raw "host", nestedMap raw "headers"⟩ := by
  obtain ⟨fields, hfields, h⟩ := Option.bind_eq_some_iff.mp h
  obtain ⟨type, htype, h⟩ := Option.bind_eq_some_iff.mp h
  obtain ⟨path, hpath, h⟩ := Option.bind_eq_some_iff.mp h
  obtain ⟨serviceName, hserviceName, h⟩ := Option.bind_eq_some_iff.mp h
  obtain ⟨headers, hheaders, h⟩ := Option.bind_eq_some_iff.mp h
  rw [← Option.some.inj h, nestedText, nestedText, nestedText, nestedMap,
    nestedValue_eq hfields htype, nestedValue_eq hfields hpath,
    nestedValue_eq hfields hserviceName, nestedValue_eq hfields hheaders, nested_eq hfields]

theorem readUTLS_eq {fingerprint : Bytes} {raw : Option JsonValue}
    (h : readUTLS raw = .ok fingerprint) :
    fingerprint = (raw.map fun value => nestedText value "fingerprint").getD [] := by
  cases raw with
  | none => exact (Except.ok.inj h).symm
  | some value =>
    obtain ⟨-, h⟩ := ite_error_eq_ok h
    split at h
    · rename_i fingerprint' hsettings
      obtain ⟨fields, hfields, hsettings⟩ := Option.bind_eq_some_iff.mp hsettings
      obtain ⟨enabled, -, hsettings⟩ := Option.bind_eq_some_iff.mp hsettings
      obtain ⟨text, htext, hsettings⟩ := Option.bind_eq_some_iff.mp hsettings
      obtain ⟨-, rfl⟩ := Prod.mk.inj (Option.some.inj hsettings)
      rw [← Except.ok.inj h, Option.map_some, Option.getD_some, nestedText,
        nestedValue_eq hfields htext]
    · cases h

theorem newReality_eq {publicKey shortID : Bytes} {r : Reality}
    (h : newReality unicode publicKey shortID = .ok r) :
    r = ⟨publicKey, toLower unicode shortID⟩ := by
  unfold newReality at h
  split at h
  · cases h
  · obtain ⟨-, h⟩ := ite_invalid_eq_ok.mp h
    obtain ⟨-, h⟩ := ite_invalid_eq_ok.mp h
    split at h
    · cases h
    · exact (Except.ok.inj h).symm

theorem readReality_eq {settings : TLSSettings} {reality : Option Reality}
    (h : readReality unicode settings = .ok reality) :
    reality = settings.reality.map fun value =>
      ⟨nestedText value "public_key", toLower unicode (nestedText value "short_id")⟩ := by
  unfold readReality at h
  cases hraw : settings.reality with
  | none =>
    rw [hraw] at h
    exact (Except.ok.inj h).symm
  | some value =>
    rw [hraw] at h
    obtain ⟨-, h⟩ := ite_error_eq_ok h
    dsimp only at h
    split at h
    · rename_i publicKey shortID hparts
      obtain ⟨fields, hfields, hparts⟩ := Option.bind_eq_some_iff.mp hparts
      obtain ⟨enabled, -, hparts⟩ := Option.bind_eq_some_iff.mp hparts
      obtain ⟨key, hkey, hparts⟩ := Option.bind_eq_some_iff.mp hparts
      obtain ⟨short, hshort, hparts⟩ := Option.bind_eq_some_iff.mp hparts
      simp only [Option.pure_def, Option.some.injEq, Prod.mk.injEq] at hparts
      obtain ⟨-, rfl, rfl⟩ := hparts
      obtain ⟨-, h⟩ := ite_error_eq_ok h
      obtain ⟨r, hresult, rfl⟩ := map_eq_ok.mp (orElse_eq_ok h)
      rw [newReality_eq hresult, Option.map_some, nestedText, nestedText,
        nestedValue_eq hfields hkey, nestedValue_eq hfields hshort]
    · cases h

theorem newSecurityOptions_eq {alpn : List Bytes} {fingerprint : Bytes}
    {reality : Option Reality} {s : SecurityOptions}
    (h : newSecurityOptions alpn fingerprint reality = .ok s) :
    s = ⟨alpn, fingerprint, reality⟩ ∧ (fingerprint = [] → reality = none) := by
  obtain ⟨-, h⟩ := ite_invalid_eq_ok.mp h
  obtain ⟨-, -, h⟩ := bind_eq_ok.mp h
  obtain ⟨-, h⟩ := ite_invalid_eq_ok.mp h
  obtain ⟨hreality, h⟩ := ite_invalid_eq_ok.mp h
  refine ⟨(Except.ok.inj h).symm, ?_⟩
  rintro rfl
  cases reality with
  | none => rfl
  | some r => simp at hreality

/-- What is read of a TLS object. -/
structure ReadTLS (unicode : Unicode) (raw : JsonValue) (tls : TLSConfig)
    (security : SecurityOptions) : Prop where
  newTLS : newTLS unicode (nestedText raw "server_name") (nestedFlag raw "insecure") = .ok tls
  alpn : security.alpn = nestedTexts raw "alpn"
  fingerprint : security.fingerprint = fingerprintOption raw
  reality : security.reality = realityOption unicode raw
  /-- Reality needs a fingerprint. -/
  fingerprinted : security.fingerprint = [] → security.reality = none

theorem readTLS_eq (h : readTLS unicode (some raw) = .ok (tls, security)) (hnull : raw ≠ .null) :
    ReadTLS unicode raw tls security := by
  unfold readTLS at h
  split at h
  · cases ‹some raw = none›
  · exact absurd (Option.some.inj ‹_›) hnull
  · rename_i value _ hvalue
    obtain rfl := Option.some.inj hvalue
    obtain ⟨-, h⟩ := ite_error_eq_ok h
    obtain ⟨settings, hsettings, h⟩ := bind_eq_ok.mp h
    obtain rfl := readTLSSettings_eq (orFail_eq_ok hsettings)
    obtain ⟨-, h⟩ := ite_error_eq_ok h
    obtain ⟨tls', htls, h⟩ := bind_eq_ok.mp h
    obtain ⟨fingerprint, hfingerprint, h⟩ := bind_eq_ok.mp h
    obtain ⟨reality, hreality, h⟩ := bind_eq_ok.mp h
    obtain ⟨security', hsecurity, h⟩ := bind_eq_ok.mp h
    obtain ⟨rfl, rfl⟩ := Prod.mk.inj (Except.ok.inj h)
    obtain ⟨rfl, hfingerprinted⟩ := newSecurityOptions_eq (orElse_eq_ok hsecurity)
    exact ⟨orElse_eq_ok htls, rfl, readUTLS_eq hfingerprint, readReality_eq hreality,
      hfingerprinted⟩

/-- Without a TLS object there is no TLS. -/
theorem readTLS_absent {raw : Option JsonValue} (h : readTLS unicode raw = .ok (tls, security))
    (habsent : raw = none ∨ raw = some .null) :
    tls = disabledTLS ∧ security = {} := by
  rcases habsent with rfl | rfl
  · obtain ⟨rfl, rfl⟩ := Prod.mk.inj (Except.ok.inj h)
    exact ⟨rfl, rfl⟩
  · obtain ⟨rfl, rfl⟩ := Prod.mk.inj (Except.ok.inj h)
    exact ⟨rfl, rfl⟩

theorem readHysteria2TLS_eq (h : readHysteria2TLS unicode (some raw) = .ok (tls, security)) :
    ReadTLS unicode raw tls security := by
  obtain ⟨honly, h⟩ := ite_error_eq_ok h
  rw [Bool.not_eq_true', Bool.not_eq_false] at honly
  obtain ⟨settings, hsettings, h⟩ := bind_eq_ok.mp h
  obtain rfl := readTLSSettings_eq (orFail_eq_ok hsettings)
  obtain ⟨-, h⟩ := ite_error_eq_ok h
  obtain ⟨tls', htls, h⟩ := bind_eq_ok.mp h
  obtain ⟨security', hsecurity, h⟩ := bind_eq_ok.mp h
  obtain ⟨rfl, rfl⟩ := Prod.mk.inj (Except.ok.inj h)
  obtain ⟨rfl, -⟩ := newSecurityOptions_eq (orElse_eq_ok hsecurity)
  have hutls : nested raw "utls" = none := nested_eq_none honly (by decide)
  have hreality : nested raw "reality" = none := nested_eq_none honly (by decide)
  refine ⟨orElse_eq_ok htls, rfl, ?_, ?_, fun _ => rfl⟩
  · rw [fingerprintOption, hutls]
    rfl
  · rw [realityOption, hreality]
    rfl

/-- A configuration that is made of what was read carries the TLS object. -/
theorem ReadTLS.carries {c : Configuration} (h : ReadTLS unicode raw tls security)
    (htls : c.tls = tls.resolve c.address) (hsecurity : c.securityOptions = security) :
    CarriesTLS unicode raw c := by
  obtain ⟨name, hname, hnew⟩ := bind_eq_ok.mp h.newTLS
  obtain rfl := Except.ok.inj hnew
  have hresolve : c.tls = ⟨true, valueOr name c.address.host, nestedFlag raw "insecure"⟩ := by
    rw [htls, TLSConfig.resolve, valueOr]
    by_cases hempty : name = []
    · simp [hempty]
    · simp [hempty]
  rw [← hsecurity] at h
  exact ⟨by rw [hresolve], ⟨name, hname, by rw [hresolve]⟩, by rw [hresolve], h.alpn,
    h.fingerprint, h.reality⟩

/-! ## Transports -/

/-- The host is that of some header, if there is one. -/
theorem headerHost_mem {entries : List (String × Bytes)} {first : Bytes}
    (h : headerHost entries first = .ok host) :
    (∀ header ∈ entries, equalFoldHost header.1 = true) ∧
      (entries = [] ∧ host = first ∨ ∃ key, (key, host) ∈ entries) := by
  induction entries generalizing first with
  | nil => exact ⟨by simp, .inl ⟨rfl, (Except.ok.inj h).symm⟩⟩
  | cons entry rest ih =>
    obtain ⟨key, value⟩ := entry
    obtain ⟨hkey, h⟩ := ite_error_eq_ok h
    rw [Bool.not_eq_true', Bool.not_eq_false] at hkey
    obtain ⟨hrest, hhost⟩ := ih h
    refine ⟨by simpa [hkey] using hrest, .inr ?_⟩
    rcases hhost with ⟨rfl, rfl⟩ | ⟨key', hmem⟩
    · exact ⟨key, by simp⟩
    · exact ⟨key', List.mem_cons_of_mem _ hmem⟩

/-- The transports over HTTP keep their path and their host. -/
theorem carriesTransport_of_http {kind : TransportKind}
    (hkind : (nestedText raw "type", kind) ∈ transportKinds) (hnot : kind ≠ .webSocket)
    (hheaders : nestedMap raw "headers" = []) (hservice : nestedText raw "service_name" = [])
    (hhost : ∀ value, nested raw "host" = some value →
      value.unmarshalStrings [] = some [host] ∨ value.unmarshalString [] = some host)
    (h : newHTTPTransport unicode kind (nestedText raw "path") host = .ok t) :
    CarriesTransport unicode raw t := by
  obtain ⟨-, -, normalized, hnormalized, rfl, -⟩ := newHTTPTransport_options h
  refine ⟨hkind, ?_, hservice.symm, ?_, ?_⟩
  · rw [anyPath, if_neg hnot]
    rfl
  · rw [hheaders]
    simp
  · intro value hvalue
    refine ⟨host, hhost value hvalue, ?_⟩
    rw [hnormalized, anyHost, if_neg hnot]
    rfl

/-- The switch over the type of a transport keeps its options. -/
theorem carriesTransport_of_new
    (hkeys : ∀ header ∈ nestedMap raw "headers", equalFoldHost header.1 = true)
    (hheaders : ∀ header ∈ nestedMap raw "headers",
      normalizeOptionalHost unicode header.2 "transport.websocket.host" =
        normalizeOptionalHost unicode host "transport.websocket.host")
    (hempty : nestedMap raw "headers" = [] → host = [])
    (h : newTransport unicode ⟨nestedText raw "type", nestedText raw "path",
      nestedText raw "service_name", nested raw "host", nestedMap raw "headers"⟩ host = .ok t) :
    CarriesTransport unicode raw t := by
  unfold newTransport at h
  dsimp only at h
  split at h
  · rename_i htype
    obtain ⟨hoptions, h⟩ := ite_error_eq_ok h
    simp only [Bool.or_eq_true, decide_eq_true_eq, not_or, Option.isSome_iff_ne_none, not_not,
      ne_eq] at hoptions
    obtain ⟨t', ht, h⟩ := bind_eq_ok.mp (orElse_eq_ok h)
    obtain ⟨normalized, hhost, h⟩ := bind_eq_ok.mp h
    obtain ⟨rfl, -⟩ := newWebSocketTransport_eq ht
    obtain rfl := Except.ok.inj h
    have hkind : (nestedText raw "type", TransportKind.webSocket) ∈ transportKinds := by
      rw [htype]
      decide
    refine ⟨hkind, rfl, hoptions.2.symm, ?_, ?_⟩
    · intro header hheader
      exact ⟨hkeys header hheader, (hheaders header hheader).trans hhost⟩
    · exact of_absent hoptions.1
  · split at h
    · rename_i htype
      obtain ⟨hoptions, h⟩ := ite_error_eq_ok h
      simp only [Bool.or_eq_true, decide_eq_true_eq, not_or, not_not, ne_eq,
        List.length_eq_zero_iff] at hoptions
      have hkind : (nestedText raw "type", TransportKind.http2) ∈ transportKinds := by
        rw [htype]
        decide
      split at h
      · rename_i hnone
        exact carriesTransport_of_http hkind (by decide) hoptions.1 hoptions.2
          (by simp [hnone]) (orElse_eq_ok h)
      · rename_i value hvalue
        split at h
        · rename_i host' hhosts
          refine carriesTransport_of_http hkind (by decide) hoptions.1 hoptions.2 ?_
            (orElse_eq_ok h)
          intro value' hvalue'
          obtain rfl := Option.some.inj (hvalue.symm.trans hvalue')
          exact .inl hhosts
        · cases h
    · split at h
      · rename_i htype
        obtain ⟨hoptions, h⟩ := ite_error_eq_ok h
        simp only [Bool.or_eq_true, decide_eq_true_eq, not_or, not_not, ne_eq,
          List.length_eq_zero_iff] at hoptions
        have hkind : (nestedText raw "type", TransportKind.httpUpgrade) ∈ transportKinds := by
          rw [htype]
          decide
        split at h
        · cases h
        · rename_i host' hhost
          refine carriesTransport_of_http hkind (by decide) hoptions.1 hoptions.2 ?_
            (orElse_eq_ok h)
          intro value hvalue
          rw [hvalue, hempty hoptions.1] at hhost
          exact .inr hhost
      · split at h
        · rename_i htype
          obtain ⟨hoptions, h⟩ := ite_error_eq_ok h
          simp only [Bool.or_eq_true, decide_eq_true_eq, not_or, not_not, ne_eq,
            List.length_eq_zero_iff, Option.isSome_iff_ne_none] at hoptions
          obtain ⟨-, h⟩ := ite_invalid_eq_ok.mp (orElse_eq_ok h)
          obtain rfl := Except.ok.inj h
          have hkind : (nestedText raw "type", TransportKind.grpc) ∈ transportKinds := by
            rw [htype]
            decide
          refine ⟨hkind, hoptions.1.1.symm, rfl, ?_, ?_⟩
          · rw [hoptions.2]
            simp
          · exact of_absent hoptions.1.2
        · cases h

/-- **A transport that was read carries its object**, if the headers agree. -/
theorem readTransport_carries {order : MapOrder}
    (h : readTransport unicode order (some raw) = .ok t) (hnull : raw ≠ .null)
    (hheaders : ∃ host, ∀ header ∈ nestedMap raw "headers",
      normalizeOptionalHost unicode header.2 "transport.websocket.host" = .ok host) :
    CarriesTransport unicode raw t := by
  unfold readTransport at h
  split at h
  · cases ‹some raw = none›
  · exact absurd (Option.some.inj ‹_›) hnull
  · rename_i value _ hvalue
    obtain rfl := Option.some.inj hvalue
    obtain ⟨-, h⟩ := ite_error_eq_ok h
    obtain ⟨settings, hsettings, h⟩ := bind_eq_ok.mp h
    obtain rfl := readTransportSettings_eq (orFail_eq_ok hsettings)
    obtain ⟨host, hhost, h⟩ := bind_eq_ok.mp h
    obtain ⟨hkeys, hlast⟩ := headerHost_mem hhost
    have hvisit : ∀ header, header ∈ order.visit (nestedMap raw "headers") ↔
        header ∈ nestedMap raw "headers" := fun header => (order.perm _).mem_iff
    obtain ⟨common, hcommon⟩ := hheaders
    refine carriesTransport_of_new
      (fun header hheader => hkeys header ((hvisit header).mpr hheader)) ?_ ?_ h
    · intro header hheader
      rcases hlast with ⟨hnil, -⟩ | ⟨key, hmem⟩
      · have hin := (hvisit header).mpr hheader
        dsimp only at hnil
        rw [hnil] at hin
        cases hin
      · rw [hcommon header hheader, hcommon (key, host) ((hvisit _).mp hmem)]
    · intro hnil
      rcases hlast with ⟨-, hfirst⟩ | ⟨key, hmem⟩
      · exact hfirst
      · have hin := (hvisit _).mp hmem
        rw [hnil] at hin
        cases hin

/-! ## Records -/

/-- The record that is read of an object. -/
def recordOption (object : JsonFields) : OutboundRecord :=
  ⟨textOption object "tag", textOption object "server", textOption object "uuid",
    textOption object "password", textOption object "method", textOption object "security",
    textOption object "network", textOption object "flow", textOption object "username",
    textOption object "version", intOption object "server_port", intOption object "alter_id"⟩

theorem readRecord_eq (h : readRecord object = .ok record) : record = recordOption object := by
  have htext : ∀ {key : String} {value : Bytes},
      orFail (unmarshalPresent JsonValue.unmarshalString [] (object.get? key))
        (malformed "singbox_field_type") = .ok value → textOption object key = value :=
    fun h => optionOf_eq (orFail_eq_ok h)
  obtain ⟨tag, htag, h⟩ := bind_eq_ok.mp h
  obtain ⟨server, hserver, h⟩ := bind_eq_ok.mp h
  obtain ⟨uuid, huuid, h⟩ := bind_eq_ok.mp h
  obtain ⟨password, hpassword, h⟩ := bind_eq_ok.mp h
  obtain ⟨method, hmethod, h⟩ := bind_eq_ok.mp h
  obtain ⟨security, hsecurity, h⟩ := bind_eq_ok.mp h
  obtain ⟨network, hnetwork, h⟩ := bind_eq_ok.mp h
  obtain ⟨flow, hflow, h⟩ := bind_eq_ok.mp h
  obtain ⟨username, husername, h⟩ := bind_eq_ok.mp h
  obtain ⟨version, hversion, h⟩ := bind_eq_ok.mp h
  obtain ⟨serverPort, hserverPort, h⟩ := bind_eq_ok.mp h
  obtain ⟨alterID, halterID, h⟩ := bind_eq_ok.mp h
  have hport : intOption object "server_port" = serverPort := by
    have hraw := orFail_eq_ok hserverPort
    apply optionOf_eq
    obtain ⟨raw, hget, hvalue⟩ := Option.bind_eq_some_iff.mp hraw
    rw [hget]
    exact hvalue
  have halter : intOption object "alter_id" = alterID := optionOf_eq (orFail_eq_ok halterID)
  rw [← Except.ok.inj h, recordOption, htext htag, htext hserver, htext huuid, htext hpassword,
    htext hmethod, htext hsecurity, htext hnetwork, htext hflow, htext husername, htext hversion,
    hport, halter]

theorem newAddress_options {server : Bytes} {port : Int} {address : Address}
    (h : newAddress unicode server port = .ok address) :
    normalizeHost unicode server "address.host" = .ok (address.host, address.kind) ∧
      (address.port.val : Int) = port := by
  obtain ⟨⟨normalized, kind⟩, hhost, h⟩ := bind_eq_ok.mp h
  obtain ⟨hport, h⟩ := ite_invalid_eq_ok.mp h
  obtain rfl := Except.ok.inj h
  simp only [Bool.or_eq_true, decide_eq_true_eq, not_or, not_lt] at hport
  refine ⟨hhost, ?_⟩
  simp only [Fin.ofNat]
  omega

end Reading

/-! ## Outbounds other than Hysteria2 -/

section Outbounds

variable {unicode : Unicode} {order : MapOrder} {object : JsonFields} {kind : Bytes}
  {address : Address} {transport : Transport} {tls : TLSConfig} {security : SecurityOptions}
  {c : Configuration}

/-- A configuration made of what was read carries the object.  The options of Hysteria2 are
not admitted here. -/
theorem carries_of_madeOf {protocol : Protocol} {credential : Credential} {flow : VLESSFlow}
    {method : Bytes}
    (hmade : c.MadeOf protocol address credential transport tls security flow none method)
    (honly : JsonFields.only outboundKeys object = true)
    (hprotocol : (kind, protocol) ∈ outboundProtocols)
    (haddress : newAddress unicode (textOption object "server") (intOption object "server_port") =
      .ok address)
    (htls : ∀ raw, object.get? "tls" = some raw → raw ≠ .null → ReadTLS unicode raw tls security)
    (htransport : ∀ raw, object.get? "transport" = some raw → raw ≠ .null →
      CarriesTransport unicode raw transport)
    (hflow : flow.string = textOption object "flow")
    (hmethod : textOption object "method" ≠ [] → method = textOption object "method")
    (hsecurity : textOption object "security" ≠ [] → method = textOption object "security")
    (husername : credential.username = textOption object "username")
    (hpassword : textOption object "password" ≠ [] →
      credential.reveal = textOption object "password")
    (huuid : textOption object "uuid" ≠ [] →
      canonicalUUID (textOption object "uuid") = .ok credential.reveal)
    (hplain : Plain unicode object kind) : Carries unicode object kind c := by
  obtain ⟨hserver, hport⟩ := newAddress_options haddress
  refine ⟨by rwa [hmade.protocol], by rwa [hmade.address], fun _ => by rwa [hmade.address], ?_, ?_,
    by rwa [hmade.flow], by rwa [hmade.method], by rwa [hmade.method], by rwa [hmade.credential],
    by rwa [hmade.credential], ?_, ?_, ?_, ?_⟩
  · intro raw hraw hnull
    exact (htls raw hraw hnull).carries (by rw [hmade.address, hmade.tls]) hmade.security
  · intro raw hraw hnull
    rw [hmade.transport]
    exact htransport raw hraw hnull
  · intro hsome
    rw [hmade.credential]
    exact (canonicalUUID_digits (huuid hsome)).mpr (hplain.uuid hsome)
  · rw [hmade.hysteria]
    simp
  · exact of_absent (get?_eq_none honly (by decide))
  · exact of_absent (get?_eq_none honly (by decide))

/-- What the switch over the kind of an outbound puts together. -/
inductive NewOutbound (kind : Bytes) (record : OutboundRecord) (address : Address)
    (transport : Transport) (tls : TLSConfig) (security : SecurityOptions) (c : Configuration) :
    Prop where
  | vless {credential : Credential} (hkind : kind = ascii "vless")
      (hempty : record.password = [] ∧ record.method = [] ∧ record.security = [])
      (hcredential : newVLESSCredential record.uuid = .ok credential)
      (hmade : c.MadeOf .vless address credential transport tls security
        (if record.flow ≠ [] then .vision else .none) none [])
  | trojan {credential : Credential} (hkind : kind = ascii "trojan")
      (hsecurity : security.alpn = [] ∧ security.fingerprint = [])
      (hempty : record.uuid = [] ∧ record.method = [] ∧ record.security = [])
      (hcredential : newTrojanCredential record.password = .ok credential)
      (hmade : c.MadeOf .trojan address credential transport tls {} .none none [])
  | vmess {credential : Credential} (hkind : kind = ascii "vmess")
      (hsecurity : security.alpn = [] ∧ security.fingerprint = [])
      (hempty : record.password = [] ∧ record.method = [])
      (hcredential : newVMessCredential record.uuid = .ok credential)
      (hmade : c.MadeOf .vmess address credential transport tls {} .none none
        (valueOr record.security (ascii "auto")))
  | shadowsocks {credential : Credential} (hkind : kind = ascii "shadowsocks")
      (hempty : record.uuid = [] ∧ record.security = [])
      (hdirect : transport.kind = .tcp ∧ tls.enabled = false)
      (hcredential : newShadowsocksCredential record.password = .ok credential)
      (hmade : c.MadeOf .shadowsocks address credential newTCPTransport disabledTLS {} .none none
        record.method)
  | proxy {protocol : Protocol} {credential : Credential}
      (hkind : kind = ascii "socks" ∧ protocol = .socks5 ∧ tls.enabled = false ∨
        kind = ascii "http" ∧ protocol = .httpProxy)
      (hempty : record.uuid = [] ∧ record.method = [] ∧ record.security = [])
      (hcredential : newProxyCredential protocol record.username record.password = .ok credential)
      (hmade : c.MadeOf protocol address credential transport tls {} .none none [])

/-- An HTTP proxy has no security options. -/
theorem NewOutbound.securityOptions_eq
    (h : NewOutbound kind record address transport tls security c) (hkind : kind = ascii "http") :
    c.securityOptions = {} := by
  cases h with
  | vless hk => exact absurd (hk.symm.trans hkind) (by decide)
  | trojan _ _ _ _ hmade | vmess _ _ _ _ hmade | shadowsocks _ _ _ _ hmade | proxy _ _ _ hmade =>
    exact hmade.security

/-- The secret of a configuration with a user ID is its canonical text. -/
theorem NewOutbound.canonicalUUID_eq (h : NewOutbound kind record address transport tls security c)
    (hsome : record.uuid ≠ []) :
    canonicalUUID record.uuid = .ok c.credential.reveal := by
  cases h with
  | vless _ _ hcredential hmade | vmess _ _ _ hcredential hmade =>
    obtain ⟨canonical, huuid, hcredential⟩ := bind_eq_ok.mp hcredential
    obtain rfl := Except.ok.inj hcredential
    rw [huuid, hmade.credential]
    rfl
  | trojan _ _ hempty | shadowsocks _ hempty | proxy _ hempty => exact absurd hempty.1 hsome

theorem newOutbound_cases (hkind : kind ∈ outboundKinds)
    (h : newOutbound object kind record address transport tls security = .ok c) :
    NewOutbound kind record address transport tls security c := by
  have hnone : ∀ {s : SecurityOptions}, ¬hasSecurityOptions s = true →
      s.alpn = [] ∧ s.fingerprint = [] := by
    intro s hs
    simpa [hasSecurityOptions] using hs
  unfold newOutbound at h
  split at h
  · obtain ⟨hempty, h⟩ := ite_error_eq_ok h
    obtain ⟨credential, hcredential, h⟩ := bind_eq_ok.mp (orElse_eq_ok h)
    exact .vless ‹_› (by simpa [and_assoc] using hempty) hcredential
      (newExtendedConfiguration_madeOf h)
  · split at h
    · obtain ⟨hsecurity, h⟩ := ite_error_eq_ok h
      obtain ⟨hempty, h⟩ := ite_error_eq_ok h
      obtain ⟨credential, hcredential, h⟩ := bind_eq_ok.mp (orElse_eq_ok h)
      exact .trojan ‹_› (hnone hsecurity) (by simpa [and_assoc] using hempty) hcredential
        (newConfiguration_madeOf h)
    · split at h
      · obtain ⟨hsecurity, h⟩ := ite_error_eq_ok h
        obtain ⟨hempty, h⟩ := ite_error_eq_ok h
        obtain ⟨credential, hcredential, h⟩ := bind_eq_ok.mp (orElse_eq_ok h)
        exact .vmess ‹_› (hnone hsecurity) (by simpa using hempty) hcredential
          (newVMessConfiguration_madeOf h)
      · split at h
        · obtain ⟨hempty, h⟩ := ite_error_eq_ok h
          obtain ⟨credential, hcredential, h⟩ := bind_eq_ok.mp (orElse_eq_ok h)
          simp only [Bool.or_eq_true, decide_eq_true_eq, not_or, not_not, ne_eq,
            Bool.not_eq_true] at hempty
          obtain ⟨⟨⟨huuid, hsecurity⟩, htcp⟩, hplain⟩ := hempty
          exact .shadowsocks ‹_› ⟨huuid, hsecurity⟩ ⟨htcp, hplain⟩ hcredential
            (newShadowsocksConfiguration_madeOf h)
        · obtain ⟨hempty, h⟩ := ite_error_eq_ok h
          obtain ⟨-, h⟩ := ite_error_eq_ok h
          obtain ⟨hplain, h⟩ := ite_error_eq_ok h
          obtain ⟨credential, hcredential, h⟩ := bind_eq_ok.mp h
          simp only [Bool.or_eq_true, decide_eq_true_eq, not_or, not_not, ne_eq] at hempty
          simp only [Bool.or_eq_true, Bool.and_eq_true, decide_eq_true_eq, not_or, not_and,
            Bool.not_eq_true] at hplain
          refine .proxy ?_ ⟨hempty.1.1.1, hempty.1.1.2, hempty.1.2⟩ (orElse_eq_ok hcredential)
            (newExtendedConfiguration_madeOf (orElse_eq_ok h))
          simp only [outboundKinds, List.mem_cons, List.not_mem_nil, or_false] at hkind
          obtain hk | hk :=
            (((hkind.resolve_left ‹_›).resolve_left ‹_›).resolve_left ‹_›).resolve_left ‹_›
          · exact .inl ⟨hk, if_pos hk, hplain.1 hk⟩
          · refine .inr ⟨hk, if_neg ?_⟩
            rw [hk]
            decide

/-- What an accepted outbound other than Hysteria2 has passed. -/
structure Passed (unicode : Unicode) (order : MapOrder) (object : JsonFields) (kind : Bytes)
    (c : Configuration) (a : Address) (t : Transport) (l : TLSConfig) (s : SecurityOptions) :
    Prop where
  keys : JsonFields.only outboundKeys object = true
  proxyKeys : kind = ascii "socks" ∨ kind = ascii "http" →
    JsonFields.only (proxyKeys kind) object = true
  flow : textOption object "flow" ≠ [] →
    kind = ascii "vless" ∧ textOption object "flow" = VLESSFlow.vision.string
  username : kind ≠ ascii "socks" → kind ≠ ascii "http" → textOption object "username" = []
  address : newAddress unicode (textOption object "server") (intOption object "server_port") = .ok a
  transport : readTransport unicode order (object.get? "transport") = .ok t
  tls : readTLS unicode (object.get? "tls") = .ok (l, s)
  outbound : NewOutbound kind (recordOption object) a t l s c

theorem passed_of_parse {input : ParseInput} (hhysteria : kind ≠ ascii "hysteria2")
    (h : parseSingBoxOutbound unicode order object kind = .ok input) :
    ∃ a t l s, Passed unicode order object kind input.configuration a t l s := by
  rw [parseSingBoxOutbound, if_neg hhysteria] at h
  obtain ⟨hkind, h⟩ := ite_error_eq_ok h
  obtain ⟨⟨⟩, hkeys, h⟩ := bind_eq_ok.mp h
  obtain ⟨record, hrecord, h⟩ := bind_eq_ok.mp h
  obtain rfl := readRecord_eq hrecord
  obtain ⟨⟨⟩, hoptions, h⟩ := bind_eq_ok.mp h
  obtain ⟨a, ha, h⟩ := bind_eq_ok.mp h
  obtain ⟨t, ht, h⟩ := bind_eq_ok.mp h
  obtain ⟨⟨l, s⟩, htls, h⟩ := bind_eq_ok.mp h
  obtain ⟨c, hc, h⟩ := bind_eq_ok.mp h
  obtain rfl := Except.ok.inj h
  obtain ⟨honly, hkeys⟩ := ite_error_eq_ok hkeys
  obtain ⟨hproxy, -⟩ := ite_error_eq_ok hkeys
  obtain ⟨hflow, hoptions⟩ := ite_error_eq_ok hoptions
  obtain ⟨husername, -⟩ := ite_error_eq_ok hoptions
  refine ⟨a, t, l, s, by simpa using honly, ?_, ?_, ?_, orElse_eq_ok ha, ht, htls,
    newOutbound_cases (not_not.mp hkind) hc⟩
  · simpa using hproxy
  · intro hsome
    by_contra hnot
    apply hflow
    simp only [recordOption, Bool.or_eq_true, Bool.and_eq_true, decide_eq_true_eq]
    refine .inr ⟨decide_eq_true hsome, ?_⟩
    rcases not_and_or.mp hnot with hk | hf
    · exact .inl hk
    · exact .inr (decide_eq_true hf)
  · intro hsocks hhttp
    simp only [Bool.or_eq_true, Bool.and_eq_true, decide_eq_true_eq, ne_eq, not_or,
      not_and, Option.isSome_iff_ne_none, not_not] at husername
    rw [textOption, optionOf, husername.2 ⟨hsocks, hhttp⟩]
    rfl

/-- **An accepted outbound other than Hysteria2 carries its options**, if nothing is left
aside. -/
theorem Passed.carries {l : TLSConfig} {s : SecurityOptions}
    (h : Passed unicode order object kind c address t l s) (hplain : Plain unicode object kind) :
    Carries unicode object kind c := by
  have htls : ∀ raw, object.get? "tls" = some raw → raw ≠ .null → ReadTLS unicode raw l s := by
    intro raw hraw hnull
    have hread := h.tls
    rw [hraw] at hread
    exact readTLS_eq hread hnull
  have htransport : ∀ raw, object.get? "transport" = some raw → raw ≠ .null →
      CarriesTransport unicode raw t := by
    intro raw hraw hnull
    have hread := h.transport
    rw [hraw] at hread
    exact readTransport_carries hread hnull (hplain.headers raw hraw)
  -- without ALPN and fingerprint there is no Reality either
  have hnothing : s.alpn = [] ∧ s.fingerprint = [] → s = {} := by
    rintro ⟨halpn, hfingerprint⟩
    have hreality : s.reality = none := by
      by_cases habsent : object.get? "tls" = none ∨ object.get? "tls" = some .null
      · rw [(readTLS_absent h.tls habsent).2]
      · rw [not_or] at habsent
        obtain ⟨raw, hraw⟩ := Option.ne_none_iff_exists'.mp habsent.1
        refine (htls raw hraw ?_).fingerprinted hfingerprint
        rintro rfl
        exact habsent.2 hraw
    obtain ⟨alpn, fingerprint, reality⟩ := s
    subst halpn hfingerprint hreality
    rfl
  have hflow : kind ≠ ascii "vless" → VLESSFlow.none.string = textOption object "flow" := by
    intro hne
    by_contra hsome
    exact hne (h.flow fun hnil => hsome hnil.symm).1
  cases h.outbound with
  | vless hkind hempty hcredential hmade =>
    obtain ⟨hpassword, hmethod, hsecurity⟩ := hempty
    obtain ⟨canonical, huuid, hcredential⟩ := bind_eq_ok.mp hcredential
    obtain rfl := Except.ok.inj hcredential
    subst hkind
    have husername := h.username (by decide) (by decide)
    refine carries_of_madeOf hmade h.keys (by decide) h.address htls htransport ?_
      (fun hsome => absurd hmethod hsome) (fun hsome => absurd hsecurity hsome)
      husername.symm (fun hsome => absurd hpassword hsome) (fun _ => huuid) hplain
    change VLESSFlow.string (if textOption object "flow" ≠ [] then .vision else .none) = _
    split_ifs with hsome
    · exact (h.flow hsome).2.symm
    · exact (not_not.mp hsome).symm
  | trojan hkind hsecurity hempty hcredential hmade =>
    obtain ⟨huuid, hmethod, hsecure⟩ := hempty
    simp only [newTrojanCredential, ite_invalid_eq_ok, Except.ok.injEq] at hcredential
    obtain ⟨-, -, -, rfl⟩ := hcredential
    subst hkind
    have husername := h.username (by decide) (by decide)
    rw [← hnothing hsecurity] at hmade
    exact carries_of_madeOf hmade h.keys (by decide) h.address htls htransport
      (hflow (by decide)) (fun hsome => absurd hmethod hsome)
      (fun hsome => absurd hsecure hsome) husername.symm (fun _ => rfl)
      (fun hsome => absurd huuid hsome) hplain
  | vmess hkind hsecurity hempty hcredential hmade =>
    obtain ⟨hpassword, hmethod⟩ := hempty
    obtain ⟨canonical, huuid, hcredential⟩ := bind_eq_ok.mp hcredential
    obtain rfl := Except.ok.inj hcredential
    subst hkind
    have husername := h.username (by decide) (by decide)
    rw [← hnothing hsecurity] at hmade
    exact carries_of_madeOf hmade h.keys (by decide) h.address htls htransport
      (hflow (by decide)) (fun hsome => absurd hmethod hsome)
      (fun hsome => if_neg hsome) husername.symm (fun hsome => absurd hpassword hsome)
      (fun _ => huuid) hplain
  | shadowsocks hkind hempty hdirect hcredential hmade =>
    obtain ⟨huuid, hsecure⟩ := hempty
    obtain ⟨-, hcredential⟩ := ite_invalid_eq_ok.mp hcredential
    obtain rfl := Except.ok.inj hcredential
    subst hkind
    have husername := h.username (by decide) (by decide)
    refine carries_of_madeOf hmade h.keys (by decide) h.address ?_ ?_
      (hflow (by decide)) (fun _ => rfl) (fun hsome => absurd hsecure hsome)
      husername.symm (fun _ => rfl) (fun hsome => absurd huuid hsome) hplain
    · -- a TLS object would have to be enabled
      intro raw hraw hnull
      obtain ⟨name, -, hnew⟩ := bind_eq_ok.mp (htls raw hraw hnull).newTLS
      rw [← Except.ok.inj hnew] at hdirect
      cases hdirect.2
    · intro raw hraw hnull
      have hkinds := (htransport raw hraw hnull).kind
      rw [hdirect.1] at hkinds
      simp [transportKinds] at hkinds
  | @proxy protocol credential hkind hempty hcredential hmade =>
    obtain ⟨huuid, hmethod, hsecure⟩ := hempty
    simp only [newProxyCredential, ite_invalid_eq_ok, Except.ok.injEq] at hcredential
    obtain ⟨-, -, -, rfl⟩ := hcredential
    refine carries_of_madeOf hmade h.keys ?_ h.address ?_ htransport (hflow ?_)
      (fun hsome => absurd hmethod hsome) (fun hsome => absurd hsecure hsome) rfl (fun _ => rfl)
      (fun hsome => absurd huuid hsome) hplain
    · rcases hkind with ⟨hk, hp, -⟩ | ⟨hk, hp⟩
      · rw [hk, hp]
        decide
      · rw [hk, hp]
        decide
    · intro raw hraw hnull
      have hread := htls raw hraw hnull
      rcases hkind with ⟨-, -, hdisabled⟩ | ⟨hk, -⟩
      · obtain ⟨name, -, hnew⟩ := bind_eq_ok.mp hread.newTLS
        rw [← Except.ok.inj hnew] at hdisabled
        cases hdisabled
      · obtain ⟨halpn, hfingerprint, -⟩ := hplain.security hk raw hraw
        rw [← hnothing ⟨hread.alpn.trans halpn, hread.fingerprint.trans hfingerprint⟩]
        exact hread
    · rcases hkind with ⟨hk, -⟩ | ⟨hk, -⟩
      · rw [hk]
        decide
      · rw [hk]
        decide

end Outbounds

/-! ## Hysteria2 -/

section Hysteria2

variable {unicode : Unicode} {object : JsonFields}

theorem readHysteria2Record_eq {record : Hysteria2Record}
    (h : readHysteria2Record object = some record) :
    record = ⟨textOption object "tag", textOption object "server", intOption object "server_port",
      textOption object "password", intOption object "up_mbps", intOption object "down_mbps"⟩ := by
  obtain ⟨tag, htag, h⟩ := Option.bind_eq_some_iff.mp h
  obtain ⟨server, hserver, h⟩ := Option.bind_eq_some_iff.mp h
  obtain ⟨port, hport, h⟩ := Option.bind_eq_some_iff.mp h
  obtain ⟨password, hpassword, h⟩ := Option.bind_eq_some_iff.mp h
  obtain ⟨up, hup, h⟩ := Option.bind_eq_some_iff.mp h
  obtain ⟨down, hdown, h⟩ := Option.bind_eq_some_iff.mp h
  rw [← Option.some.inj h, textOption, textOption, textOption, intOption, intOption, intOption,
    optionOf_eq htag, optionOf_eq hserver, optionOf_eq hport, optionOf_eq hpassword,
    optionOf_eq hup, optionOf_eq hdown]

theorem readObfs_eq {raw : JsonValue} (h : readObfs (some raw) = .ok secret) :
    secret = nestedText raw "password" := by
  obtain ⟨-, h⟩ := ite_error_eq_ok h
  split at h
  · cases h
  · rename_i type password hsettings
    obtain ⟨fields, hfields, hsettings⟩ := Option.bind_eq_some_iff.mp hsettings
    obtain ⟨type', -, hsettings⟩ := Option.bind_eq_some_iff.mp hsettings
    obtain ⟨text, htext, hsettings⟩ := Option.bind_eq_some_iff.mp hsettings
    obtain ⟨-, rfl⟩ := Prod.mk.inj (Option.some.inj hsettings)
    obtain ⟨-, h⟩ := ite_error_eq_ok h
    rw [← Except.ok.inj h, nestedText, nestedValue_eq hfields htext]

theorem newHysteria2Options_eq {upMbps downMbps : Int} {options : Hysteria2Options}
    (h : newHysteria2Options upMbps downMbps secret = .ok options) :
    options.upMbps = upMbps ∧ options.downMbps = downMbps ∧
      options.revealSalamanderPassword = secret := by
  obtain ⟨-, h⟩ := ite_invalid_eq_ok.mp h
  obtain ⟨-, h⟩ := ite_invalid_eq_ok.mp h
  obtain rfl := Except.ok.inj h
  refine ⟨rfl, rfl, ?_⟩
  unfold Hysteria2Options.revealSalamanderPassword
  by_cases hempty : secret = []
  · simp [hempty]
  · simp [hempty]

theorem readHysteria2Options_eq {record : Hysteria2Record} {options : Hysteria2Options}
    (h : readHysteria2Options object record secret = .ok options) :
    (options.upMbps = record.up ∧ options.downMbps = record.down ∧
      options.revealSalamanderPassword = secret) ∧
      ∀ raw, object.get? "server_ports" = some raw → ∃ texts,
        raw.unmarshalStrings [] = some texts ∧ collectPorts 0 texts = .ok options.portRanges := by
  unfold readHysteria2Options at h
  split at h
  · rename_i hnone
    exact ⟨newHysteria2Options_eq (orElse_eq_ok h), of_absent hnone⟩
  · rename_i raw hraw
    split at h
    · cases h
    · rename_i texts htexts
      obtain ⟨base, hbase, h⟩ := bind_eq_ok.mp (orElse_eq_ok h)
      obtain ⟨-, h⟩ := ite_invalid_eq_ok.mp h
      obtain ⟨portRanges, hports, h⟩ := bind_eq_ok.mp h
      obtain rfl := Except.ok.inj h
      obtain ⟨hup, hdown, hreveal⟩ := newHysteria2Options_eq hbase
      refine ⟨⟨hup, hdown, hreveal⟩, ?_⟩
      intro raw' hraw'
      obtain rfl := Option.some.inj (hraw.symm.trans hraw')
      exact ⟨texts, htexts, hports⟩

/-- **An accepted Hysteria2 outbound carries its options.** -/
theorem carries_hysteria2 {input : ParseInput}
    (h : parseSingBoxHysteria2 unicode object = .ok input) :
    Carries unicode object (ascii "hysteria2") input.configuration ∧
      Plain unicode object (ascii "hysteria2") := by
  obtain ⟨honly, h⟩ := ite_error_eq_ok h
  rw [Bool.not_eq_true', Bool.not_eq_false] at honly
  obtain ⟨record, hrecord, h⟩ := bind_eq_ok.mp h
  obtain rfl := readHysteria2Record_eq (orFail_eq_ok hrecord)
  obtain ⟨-, h⟩ := ite_error_eq_ok h
  obtain ⟨port, hport, h⟩ := bind_eq_ok.mp h
  obtain ⟨address, haddress, h⟩ := bind_eq_ok.mp h
  obtain ⟨credential, hcredential, h⟩ := bind_eq_ok.mp h
  obtain ⟨⟨tls, security⟩, htls, h⟩ := bind_eq_ok.mp h
  obtain ⟨secret, hsecret, h⟩ := bind_eq_ok.mp h
  obtain ⟨options, hoptions, h⟩ := bind_eq_ok.mp h
  obtain ⟨-, h⟩ := ite_error_eq_ok h
  obtain ⟨c, hc, h⟩ := bind_eq_ok.mp h
  obtain rfl := Except.ok.inj h
  have hmade := newExtendedConfiguration_madeOf (orElse_eq_ok hc)
  obtain ⟨hserver, hvalue⟩ := newAddress_options (orElse_eq_ok haddress)
  obtain ⟨-, hcredential⟩ := ite_invalid_eq_ok.mp (orElse_eq_ok hcredential)
  obtain rfl := Except.ok.inj hcredential
  obtain ⟨⟨hup, hdown, hreveal⟩, hports⟩ := readHysteria2Options_eq hoptions
  have hflow : textOption object "flow" = [] := textOption_eq_nil honly (by decide)
  have hmethod : textOption object "method" = [] := textOption_eq_nil honly (by decide)
  have hsecurity : textOption object "security" = [] := textOption_eq_nil honly (by decide)
  have husername : textOption object "username" = [] := textOption_eq_nil honly (by decide)
  have huuid : textOption object "uuid" = [] := textOption_eq_nil honly (by decide)
  have htransport : object.get? "transport" = none := get?_eq_none honly (by decide)
  refine ⟨⟨by rw [hmade.protocol]; decide, by rwa [hmade.address], ?_, ?_, ?_, ?_,
    fun hsome => absurd hmethod hsome, fun hsome => absurd hsecurity hsome, ?_, fun _ => ?_,
    fun hsome => absurd huuid hsome, ?_, ?_, ?_⟩, ?_, ?_, fun hsome => absurd huuid hsome⟩
  · intro hnone
    rw [hmade.address, hvalue]
    rw [readHysteria2Port, hnone] at hport
    exact (Except.ok.inj hport).symm
  · intro raw hraw _
    rw [hraw] at htls
    exact (readHysteria2TLS_eq htls).carries (by rw [hmade.address, hmade.tls]) hmade.security
  · exact of_absent htransport
  · rw [hmade.flow, hflow]
    rfl
  · rw [hmade.credential, husername]
  · rw [hmade.credential]
    rfl
  · intro options' hoptions'
    obtain rfl : options = options' := Option.some.inj (hmade.hysteria.symm.trans hoptions')
    exact ⟨hup, hdown⟩
  · intro raw hraw
    rw [hraw] at hsecret
    exact ⟨options, hmade.hysteria, hreveal.trans (readObfs_eq hsecret)⟩
  · intro raw hraw
    exact ⟨options, hmade.hysteria, hports raw hraw⟩
  · intro hkind
    exact absurd hkind (by decide)
  · exact of_absent htransport

end Hysteria2

/-! ## Every outbound -/

/-- **Which accepted outbounds carry all their options**: exactly those of which the parser
leaves nothing aside. -/
theorem carries_iff {unicode : Unicode} {order : MapOrder} {object : JsonFields} {kind : Bytes}
    {input : ParseInput} (h : parseSingBoxOutbound unicode order object kind = .ok input) :
    Carries unicode object kind input.configuration ↔ Plain unicode object kind := by
  by_cases hkind : kind = ascii "hysteria2"
  · subst hkind
    rw [parseSingBoxOutbound, if_pos rfl] at h
    obtain ⟨hcarries, hplain⟩ := carries_hysteria2 h
    exact ⟨fun _ => hplain, fun _ => hcarries⟩
  · obtain ⟨a, t, l, s, hpassed⟩ := passed_of_parse hkind h
    refine ⟨fun hcarries => ⟨?_, ?_, ?_⟩, hpassed.carries⟩
    · intro hhttp raw hraw
      by_cases hnull : raw = .null
      · rw [hnull]
        exact ⟨rfl, rfl, rfl⟩
      · have htls := hcarries.tls raw hraw hnull
        have hempty := hpassed.outbound.securityOptions_eq hhttp
        refine ⟨htls.alpn.symm.trans (by rw [hempty]), htls.fingerprint.symm.trans (by rw [hempty]),
          Option.map_eq_none_iff.mp (htls.reality.symm.trans (by rw [hempty]))⟩
    · intro raw hraw
      by_cases hnull : raw = .null
      · rw [hnull]
        exact ⟨[], by rintro header ⟨⟩⟩
      · have hread := hcarries.transport raw hraw hnull
        exact ⟨_, fun header hheader => (hread.headers header hheader).2⟩
    · intro hsome
      exact (canonicalUUID_digits (hpassed.outbound.canonicalUUID_eq hsome)).mp
        (hcarries.uuid hsome)

namespace Sample

open Endpoint.Sample

/-- A TLS object with the given ALPN list. -/
def tlsObject (alpn : List JsonValue) : JsonValue :=
  .object [("enabled", .bool true), ("server_name", .string (ascii "example.com")),
    ("alpn", .array alpn)]

/-- An HTTP proxy over TLS. -/
def httpObject (alpn : List JsonValue) : JsonFields :=
  [("type", .string (ascii "http")), ("server", .string (ascii "192.0.2.1")),
    ("server_port", .number 443), ("tls", tlsObject alpn)]

/-- The ALPN list of an HTTP proxy is dropped: the object is accepted, and its configuration has
no ALPN. -/
theorem alpn_dropped : ∃ input,
    parseSingBoxOutbound unicode .written (httpObject [.string (ascii "h2")]) (ascii "http") =
      .ok input ∧
    ¬Carries unicode (httpObject [.string (ascii "h2")]) (ascii "http") input.configuration := by
  have hparse : (parseSingBoxOutbound unicode .written (httpObject [.string (ascii "h2")])
      (ascii "http")).map (fun input => input.configuration.securityOptions.alpn) = .ok [] := by
    decide +kernel
  obtain ⟨input, hinput, halpn⟩ := map_eq_ok.mp hparse
  refine ⟨input, hinput, fun hcarries => ?_⟩
  have htls := (hcarries.tls (tlsObject [.string (ascii "h2")]) rfl (by rintro ⟨⟩)).alpn
  rw [halpn] at htls
  exact absurd htls (by decide +kernel)

/-- Without ALPN the same proxy carries all its options. -/
theorem carries_iff_plain : ∃ input,
    parseSingBoxOutbound unicode .written (httpObject []) (ascii "http") = .ok input ∧
    Carries unicode (httpObject []) (ascii "http") input.configuration := by
  obtain ⟨input, hinput⟩ := exists_of_isOk (show (parseSingBoxOutbound unicode .written
    (httpObject []) (ascii "http")).isOk = true by decide +kernel)
  refine ⟨input, hinput, (carries_iff hinput).mpr ⟨?_, ?_, ?_⟩⟩
  · intro _ raw hraw
    obtain rfl : tlsObject [] = raw := Option.some.inj hraw
    exact ⟨rfl, rfl, rfl⟩
  · rintro raw ⟨⟩
  · intro hsome
    exact absurd rfl hsome

end Sample

end Egressfox.Source
