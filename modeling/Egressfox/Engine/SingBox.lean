import Egressfox.Engine.Capability
import Egressfox.Lib.JsonValue

/-!
# Rendering an outbound for sing-box

`renderOutbound` of `internal/engine/singbox/render.go`, and the JSON object of an outbound.

The fields of the selector at the end of the list of outbounds are left out: `renderOutbound`
does not set them, so that they are omitted in the JSON of every outbound it returns.
-/

namespace Egressfox.Engine.SingBox

open Lib Endpoint
open Artifact (Profile singBox1141)

/-- `utlsConfig`. -/
structure UTLSConfig where
  enabled : Bool
  fingerprint : Bytes
deriving DecidableEq, Repr

/-- `realityConfig`. -/
structure RealityConfig where
  enabled : Bool
  publicKey : Bytes
  shortID : Bytes
deriving DecidableEq, Repr

/-- `tlsConfig`. -/
structure OutboundTLS where
  enabled : Bool
  serverName : Bytes
  insecure : Bool
  alpn : List Bytes
  utls : Option UTLSConfig := none
  reality : Option RealityConfig := none
deriving DecidableEq, Repr

/-- The value of the `any` field `Host`. -/
inductive HostValue where
  | absent
  | list (hosts : List Bytes)
  | string (host : Bytes)
deriving DecidableEq, Repr

/-- `transport`. -/
structure OutboundTransport where
  type : Bytes
  path : Bytes := []
  host : HostValue := .absent
  serviceName : Bytes := []
  headers : List (String × Bytes) := []
deriving DecidableEq, Repr

/-- `hy2Obfs`. -/
structure Hy2Obfs where
  type : Bytes
  password : Bytes
deriving DecidableEq, Repr

/-- `outbound`. -/
structure Outbound where
  type : Bytes := []
  tag : Bytes := []
  server : Bytes := []
  serverPort : Nat := 0
  uuid : Bytes := []
  password : Bytes := []
  username : Bytes := []
  version : Bytes := []
  security : Bytes := []
  alterID : Option Int := none
  method : Bytes := []
  network : Bytes := []
  flow : Bytes := []
  tls : Option OutboundTLS := none
  transport : Option OutboundTransport := none
  upMbps : Int := 0
  downMbps : Int := 0
  obfs : Option Hy2Obfs := none
  serverPorts : List Bytes := []
deriving DecidableEq, Repr

/-! ## Rendering -/

/-- A port entry in the notation of `server_ports`: both ends, also for a single port. -/
def serverPortRange (portRange : Bytes) : Bytes :=
  if 58 ∈ portRange then portRange else portRange ++ ascii ":" ++ portRange

/-- The entry of `server_ports` for a port range. -/
theorem serverPortRange_portRangeText {first last : Int} (hfirst : 0 ≤ first) :
    serverPortRange (portRangeText first last) = itoa first ++ 58 :: itoa last := by
  have hcolon : ascii ":" = [58] := by decide
  unfold portRangeText
  split_ifs with hsame
  · rw [serverPortRange, if_neg (colon_notMem_itoa hfirst), hcolon, hsame]
    simp
  · rw [serverPortRange, if_pos (by simp [hcolon]), hcolon]
    simp

/-- The case `ProtocolHysteria2` with options. -/
def renderHysteria2 (result : Outbound) (options : Hysteria2Options) : Outbound :=
  { result with
    serverPorts := options.portRanges.map serverPortRange
    serverPort := if options.portRanges.length ≠ 0 then 0 else result.serverPort
    upMbps := options.upMbps
    downMbps := options.downMbps
    obfs :=
      if options.revealSalamanderPassword ≠ [] then
        some ⟨ascii "salamander", options.revealSalamanderPassword⟩
      else none }

/-- The switch over the protocol. -/
def renderProtocol (result : Outbound) (c : Configuration) : Except CheckError Outbound :=
  match c.protocol with
  | .vless => .ok { result with type := ascii "vless", uuid := c.credential.reveal }
  | .trojan => .ok { result with type := ascii "trojan", password := c.credential.reveal }
  | .vmess =>
    .ok { result with
      type := ascii "vmess", uuid := c.credential.reveal, security := c.method
      alterID := some 0 }
  | .shadowsocks =>
    .ok { result with
      type := ascii "shadowsocks", method := c.method, password := c.credential.reveal }
  | .socks5 =>
    .ok { result with
      type := ascii "socks", version := ascii "5", username := c.credential.username
      password := c.credential.reveal }
  | .httpProxy =>
    .ok { result with
      type := ascii "http", username := c.credential.username
      password := c.credential.reveal, network := [] }
  | .hysteria2 =>
    let result := { result with
      type := ascii "hysteria2", password := c.credential.reveal, network := [] }
    match c.hysteria2 with
    | some options => .ok (renderHysteria2 result options)
    | none => .ok result
  | .unknown =>
    .error (.capability singBox1141 "inventory.protocol" c.protocol.string)

/-- The TLS part. -/
def renderTLS (c : Configuration) : Option OutboundTLS :=
  let security := c.securityOptions
  if c.tls.enabled then
    some
      { enabled := true, serverName := c.tls.serverName, insecure := c.tls.insecureSkipVerify
        alpn := security.alpn
        utls := if security.fingerprint ≠ [] then some ⟨true, security.fingerprint⟩ else none
        reality := security.reality.map fun r => ⟨true, r.publicKey, r.shortID⟩ }
  else none

/-- The switch over the transport. -/
def renderTransport (t : Transport) : Except CheckError (Option OutboundTransport) :=
  match t.kind with
  | .tcp | .quic => .ok none
  | .webSocket =>
    .ok (some
      { type := ascii "ws", path := t.webSocketPathText
        headers := if t.webSocketHost ≠ [] then [("Host", t.webSocketHost)] else [] })
  | .http2 =>
    .ok (some
      { type := ascii "http", path := t.path
        host := if t.host ≠ [] then .list [t.host] else .absent })
  | .httpUpgrade =>
    .ok (some { type := ascii "httpupgrade", path := t.path, host := .string t.host })
  | .grpc => .ok (some { type := ascii "grpc", serviceName := t.service })
  | .xhttp | .unknown =>
    .error (.capability singBox1141 "inventory.transport" t.kind.string)

/-- The outbound before the switches. -/
def commonOutbound (item : NamedRecord) : Outbound where
  tag := item.name
  server := item.record.configuration.address.host
  serverPort := item.record.configuration.address.port.val
  network := ascii "tcp"
  flow := item.record.configuration.flow.string

/-- `renderOutbound`. -/
def renderOutbound (item : NamedRecord) : Except CheckError Outbound := do
  let c := item.record.configuration
  checkEndpoint singBox1141 c
  let result ← renderProtocol (commonOutbound item) c
  let transport ← renderTransport c.transport
  return { result with tls := renderTLS c, transport := transport }

/-! ## JSON -/

section Json

variable (wire : JsonWire)

/-- A string. -/
def text (s : Bytes) : JsonValue := .string (wire.carry s)

/-- A string field with `omitempty`. -/
def textField (key : String) (s : Bytes) : JsonFields :=
  JsonFields.fieldIf (s ≠ []) key (text wire s)

/-- A field of a pointer type with `omitempty`. -/
def optionField {α : Type} (key : String) (json : α → JsonValue) (value : Option α) : JsonFields :=
  value.elim [] fun v => [(key, json v)]

/-- A slice of strings with `omitempty`. -/
def listField (key : String) (items : List Bytes) : JsonFields :=
  JsonFields.fieldIf (items ≠ []) key (.array (items.map (text wire)))

def UTLSConfig.json (u : UTLSConfig) : JsonValue :=
  .object [("enabled", .bool u.enabled), ("fingerprint", text wire u.fingerprint)]

def RealityConfig.json (r : RealityConfig) : JsonValue :=
  .object [("enabled", .bool r.enabled), ("public_key", text wire r.publicKey),
    ("short_id", text wire r.shortID)]

def OutboundTLS.fields (t : OutboundTLS) : JsonFields :=
  [("enabled", .bool t.enabled), ("server_name", text wire t.serverName),
    ("insecure", .bool t.insecure)] ++ listField wire "alpn" t.alpn ++
    optionField "utls" (UTLSConfig.json wire) t.utls ++
    optionField "reality" (RealityConfig.json wire) t.reality

/-- An interface field is omitted only if it holds no value: an empty text is written. -/
def HostValue.json : HostValue → Option JsonValue
  | .absent => none
  | .list hosts => some (.array (hosts.map (text wire)))
  | .string host => some (text wire host)

def OutboundTransport.fields (t : OutboundTransport) : JsonFields :=
  [("type", text wire t.type)] ++ textField wire "path" t.path ++
    optionField "host" id (t.host.json wire) ++ textField wire "service_name" t.serviceName ++
    JsonFields.fieldIf (t.headers ≠ []) "headers"
      (.object (t.headers.map fun header => (header.1, text wire header.2)))

def Hy2Obfs.json (o : Hy2Obfs) : JsonValue :=
  .object [("type", text wire o.type), ("password", text wire o.password)]

/-- The fields of the JSON object of an outbound, in the order of the struct. -/
def Outbound.fields (o : Outbound) : JsonFields :=
  [("type", text wire o.type), ("tag", text wire o.tag)] ++ textField wire "server" o.server ++
    JsonFields.fieldIf (o.serverPort ≠ 0) "server_port" (.number o.serverPort) ++
    textField wire "uuid" o.uuid ++ textField wire "password" o.password ++
    textField wire "username" o.username ++ textField wire "version" o.version ++
    textField wire "security" o.security ++ optionField "alter_id" .number o.alterID ++
    textField wire "method" o.method ++ textField wire "network" o.network ++
    textField wire "flow" o.flow ++
    optionField "tls" (fun t => .object (OutboundTLS.fields wire t)) o.tls ++
    optionField "transport" (fun t => .object (OutboundTransport.fields wire t)) o.transport ++
    JsonFields.fieldIf (o.upMbps ≠ 0) "up_mbps" (.number o.upMbps) ++
    JsonFields.fieldIf (o.downMbps ≠ 0) "down_mbps" (.number o.downMbps) ++
    optionField "obfs" (Hy2Obfs.json wire) o.obfs ++ listField wire "server_ports" o.serverPorts

end Json

/-! ## Port sets -/

/-- **Port sets are exact.**  The entries that the constructor accepts denote ranges of at most
256 ports, counted with repetition.  Exactly the ports of these ranges are included, the
stored entries are their canonical texts, and the constructor takes the stored entries, as they
are or as `server_ports` spells them, to the same options. -/
theorem port_sets_exact {upMbps downMbps : Int} {salamanderPassword : Bytes}
    {entries : List Bytes} {options : Hysteria2Options}
    (h : newHysteria2OptionsWithPorts upMbps downMbps salamanderPassword entries = .ok options) :
    ∃ ranges, Denote entries ranges ∧
      (∀ range ∈ ranges, 1 ≤ range.1 ∧ range.1 ≤ range.2 ∧ range.2 ≤ 65535) ∧
      (∀ port : Fin 65536, options.includesPort port = true ↔
        ∃ range ∈ ranges, range.1 ≤ port.val ∧ port.val ≤ range.2) ∧
      portCount ranges ≤ 256 ∧
      options.portRanges = rangeTexts ranges ∧ Denote options.portRanges ranges ∧
      newHysteria2OptionsWithPorts upMbps downMbps salamanderPassword options.portRanges =
        .ok options ∧
      newHysteria2OptionsWithPorts upMbps downMbps salamanderPassword
        (options.portRanges.map serverPortRange) = .ok options := by
  obtain ⟨plain, hplain, h⟩ := bind_eq_ok.mp h
  obtain ⟨hlength, h⟩ := ite_invalid_eq_ok.mp h
  obtain ⟨texts, hcollect, h⟩ := bind_eq_ok.mp h
  obtain rfl := Except.ok.inj h
  obtain ⟨ranges, hdenote, hfits, rfl⟩ := collectPorts_eq_ok_iff.mp hcollect
  have hbounds := hdenote.bounds
  have hsame : (rangeTexts ranges).length = entries.length :=
    (List.length_map _).trans hdenote.length_eq.symm
  have hne : ranges ≠ [] := by
    rintro rfl
    simp [← hsame, rangeTexts] at hlength
  -- every spelling that denotes the same ranges is taken to the same options
  have hagain : ∀ write : Bytes → Bytes,
      (∀ first last : Int, 1 ≤ first → first ≤ last → last ≤ 65535 →
        parsePortRange (write (portRangeText first last)) = .ok (first, last)) →
      newHysteria2OptionsWithPorts upMbps downMbps salamanderPassword
        ((rangeTexts ranges).map write) = .ok { plain with portRanges := rangeTexts ranges } := by
    intro write hwrite
    refine bind_eq_ok.mpr ⟨plain, hplain, ite_invalid_eq_ok.mpr ⟨?_, ?_⟩⟩
    · rwa [List.length_map, hsame]
    · exact bind_eq_ok.mpr ⟨_, collectPorts_collected hwrite hcollect, rfl⟩
  have hstored := hagain id fun first last hfirst hle hlast =>
    parsePortRange_portRangeText hfirst hle hlast
  rw [List.map_id] at hstored
  refine ⟨ranges, hdenote, hbounds, fun port => ?_, ?_, rfl, ?_, hstored, hagain _ ?_⟩
  · rw [Hysteria2Options.includesPort, Bool.or_eq_true, decide_eq_true_eq, or_iff_right (by
      simpa [rangeTexts] using hne), rangeTexts, List.any_map, List.any_eq_true]
    refine exists_congr fun range => and_congr_right fun hrange => ?_
    obtain ⟨hfirst, hle, hlast⟩ := hbounds range hrange
    simp [portRange_portRangeText (by omega) hle hlast]
  · have hcount := hfits.resolve_left hne
    rwa [zero_add] at hcount
  · rw [Denote, rangeTexts, List.forall₂_map_left_iff, List.forall₂_same]
    intro range hrange
    obtain ⟨hfirst, hle, hlast⟩ := hbounds range hrange
    exact parsePortRange_portRangeText hfirst hle hlast
  · intro first last hfirst hle hlast
    rw [serverPortRange_portRangeText (by omega)]
    exact parsePortRange_range_text hfirst hle hlast

/-- A port and a range. -/
theorem port_sets_exact_two : ∃ options,
    newHysteria2OptionsWithPorts 0 0 [] [ascii "443", ascii "8000:8010"] = .ok options ∧
      newHysteria2OptionsWithPorts 0 0 [] (options.portRanges.map serverPortRange) =
        .ok options := by
  obtain ⟨options, h⟩ := exists_of_isOk
    (x := newHysteria2OptionsWithPorts 0 0 [] [ascii "443", ascii "8000:8010"]) (by decide +kernel)
  obtain ⟨ranges, -, -, -, -, -, -, -, hagain⟩ := port_sets_exact h
  exact ⟨options, h, hagain⟩

end Egressfox.Engine.SingBox
