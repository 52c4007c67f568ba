import Egressfox.Engine.SingBox
import Egressfox.Source.SingBox

/-!
# Rendered outbounds are read back

The parser of sing-box outbounds accepts every outbound that `renderOutbound` writes, and
returns the configuration it was written from (`singBox_round_trip`).

The parts are treated one by one: the keys and the flat fields for any outbound
(`readRecord_fields`), then the transport and the TLS part.  What the parser puts together from
them with the constructors of `internal/endpoint` is the original, because every constructed
value goes through its constructor unchanged (`Egressfox.Endpoint.Renew`).
-/

namespace Egressfox.Source

open Lib Endpoint Engine
open Engine.SingBox
open JsonFields (get? values only getLast?_toList)
open JsonValue (unmarshalString unmarshalFields unmarshalStrings unmarshalInt unmarshalBool
  unmarshalStringMap unmarshalInt_number)
open Artifact (singBox1141)

variable {wire : JsonWire} {unicode : Unicode} {order : MapOrder}

variable {α : Type} {o result : Outbound} {s kind : Bytes} {c : Configuration} {object : JsonFields}
  {item : NamedRecord}

/-! ## Fields -/

section Fields

variable (key key' : String)

@[simp] theorem values_textField (s : Bytes) :
    values key (textField wire key' s) =
      if key' = key then (if s ≠ [] then [text wire s] else []) else [] := by
  simp [textField]

@[simp] theorem values_optionField (json : α → JsonValue) (value : Option α) :
    values key (optionField key' json value) =
      if key' = key then (value.map json).toList else [] := by
  cases value with
  | none | some v => simp [optionField]

@[simp] theorem values_listField (items : List Bytes) :
    values key (listField wire key' items) =
      if key' = key then (if items ≠ [] then [.array (items.map (text wire))] else []) else [] := by
  simp [listField]

@[simp] theorem only_textField (allowed : List String) (s : Bytes) :
    only allowed (textField wire key s) = (decide (s = []) || decide (key ∈ allowed)) := by
  simp [textField]

@[simp] theorem only_optionField (allowed : List String) (json : α → JsonValue) (value : Option α) :
    only allowed (optionField key json value) = (value.isNone || decide (key ∈ allowed)) := by
  cases value with
  | none => rfl
  | some v => simp [optionField]

@[simp] theorem only_listField (allowed : List String) (items : List Bytes) :
    only allowed (listField wire key items) = (decide (items = []) || decide (key ∈ allowed)) := by
  simp [listField]

end Fields

/-- A text that may be omitted is read as what it has become on the wire. -/
theorem unmarshalPresent_textField (s : Bytes) :
    unmarshalPresent unmarshalString [] (if s ≠ [] then [text wire s] else []).getLast? =
      some (wire.carry s) := by
  split_ifs with h
  · rfl
  · rw [not_not] at h
    rw [h, wire.carry_nil]
    rfl

/-- The flat texts of an outbound that are omitted when they are empty. -/
def texts (o : Outbound) : List (String × Bytes) :=
  [("server", o.server), ("uuid", o.uuid), ("password", o.password), ("method", o.method),
    ("security", o.security), ("network", o.network), ("flow", o.flow), ("username", o.username),
    ("version", o.version)]

theorem values_texts (o : Outbound) : ∀ field ∈ texts o,
    values field.1 (o.fields wire) = if field.2 ≠ [] then [text wire field.2] else [] := by
  simp [texts, Outbound.fields]

/-- The other fields of an outbound. -/
theorem values_fields (wire : JsonWire) (o : Outbound) :
    values "type" (o.fields wire) = [text wire o.type] ∧
    values "tag" (o.fields wire) = [text wire o.tag] ∧
    values "server_port" (o.fields wire) =
      (if o.serverPort ≠ 0 then [.number o.serverPort] else []) ∧
    values "alter_id" (o.fields wire) = (o.alterID.map .number).toList ∧
    values "tls" (o.fields wire) = (o.tls.map fun t => .object (t.fields wire)).toList ∧
    values "transport" (o.fields wire) =
      (o.transport.map fun t => .object (t.fields wire)).toList := by
  simp [Outbound.fields]

/-- The fields of an outbound that only Hysteria2 has. -/
theorem values_hysteria2 (wire : JsonWire) (o : Outbound) :
    values "up_mbps" (o.fields wire) =
      (if o.upMbps ≠ 0 then [.number o.upMbps] else []) ∧
    values "down_mbps" (o.fields wire) =
      (if o.downMbps ≠ 0 then [.number o.downMbps] else []) ∧
    values "obfs" (o.fields wire) = (o.obfs.map (Hy2Obfs.json wire)).toList ∧
    values "server_ports" (o.fields wire) =
      (if o.serverPorts ≠ [] then [.array (o.serverPorts.map (text wire))] else []) := by
  simp [Outbound.fields]

/-- The flat texts of an outbound survive the wire. -/
def Carried (wire : JsonWire) (o : Outbound) : Prop :=
  ∀ field ∈ texts o, wire.carry field.2 = field.2

/-- The record of an outbound. -/
def recordOf (wire : JsonWire) (o : Outbound) : OutboundRecord :=
  ⟨wire.carry o.tag, o.server, o.uuid, o.password, o.method, o.security, o.network, o.flow,
    o.username, o.version, o.serverPort, o.alterID.getD 0⟩

/-- The texts of an outbound are read as they were written. -/
theorem read_texts (h : Carried wire o) {key : String} (hmem : (key, s) ∈ texts o) :
    unmarshalPresent unmarshalString [] ((o.fields wire).get? key) = some s := by
  rw [get?, values_texts o (key, s) hmem, unmarshalPresent_textField, h (key, s) hmem]

theorem read_tag (wire : JsonWire) (o : Outbound) :
    unmarshalPresent unmarshalString [] ((o.fields wire).get? "tag") = some (wire.carry o.tag) := by
  rw [get?, (values_fields wire o).2.1]
  rfl

theorem orFail_some {result : Option α} {value : α} (h : result = some value)
    (diagnostic : Except Diagnostic α) : orFail result diagnostic = .ok value := by
  rw [h, orFail]

theorem unmarshalPresent_number {n : Int} (hlow : 0 ≤ n) (hhigh : n ≤ 100000) :
    unmarshalPresent unmarshalInt 0
      (if n ≠ 0 then [JsonValue.number n] else []).getLast? = some n := by
  split_ifs with h
  · have hrange : -(2 ^ 63) ≤ n ∧ n < 2 ^ 63 := by omega
    rw [List.getLast?_singleton, unmarshalPresent, Option.elim_some, unmarshalInt_number hrange]
  · rw [not_not] at h
    rw [h]
    rfl

theorem readRecord_fields (h : Carried wire o) (hport : o.serverPort ≠ 0)
    (hmax : o.serverPort < 65536) (halter : o.alterID = none ∨ o.alterID = some 0) :
    readRecord (o.fields wire) = .ok (recordOf wire o) := by
  have htext : ∀ key s, (key, s) ∈ texts o →
      orFail (unmarshalPresent unmarshalString [] ((o.fields wire).get? key))
        (malformed "singbox_field_type") = .ok s :=
    fun _ _ hmem => orFail_some (read_texts h hmem) _
  obtain ⟨-, -, hserverPort, halterID, -, -⟩ := values_fields wire o
  refine bind_eq_ok.mpr ⟨_, orFail_some (read_tag wire o) _,
    bind_eq_ok.mpr ⟨o.server, htext _ _ (by simp [texts]),
    bind_eq_ok.mpr ⟨o.uuid, htext _ _ (by simp [texts]),
    bind_eq_ok.mpr ⟨o.password, htext _ _ (by simp [texts]),
    bind_eq_ok.mpr ⟨o.method, htext _ _ (by simp [texts]),
    bind_eq_ok.mpr ⟨o.security, htext _ _ (by simp [texts]),
    bind_eq_ok.mpr ⟨o.network, htext _ _ (by simp [texts]),
    bind_eq_ok.mpr ⟨o.flow, htext _ _ (by simp [texts]),
    bind_eq_ok.mpr ⟨o.username, htext _ _ (by simp [texts]),
    bind_eq_ok.mpr ⟨o.version, htext _ _ (by simp [texts]),
    bind_eq_ok.mpr ⟨o.serverPort, ?_, bind_eq_ok.mpr ⟨o.alterID.getD 0, ?_, rfl⟩⟩⟩⟩⟩⟩⟩⟩⟩⟩⟩⟩
  · rw [get?, hserverPort, if_pos hport]
    have hrange : -(2 ^ 63) ≤ (o.serverPort : Int) ∧ (o.serverPort : Int) < 2 ^ 63 := by omega
    rw [List.getLast?_singleton, unmarshalRaw, Option.bind_some, unmarshalInt_number hrange]
    rfl
  · rw [get?, halterID]
    rcases halter with halter | halter
    · rw [halter]
      rfl
    · rw [halter]
      rfl

/-! ## The transport -/

/-- A text of a struct is read as what it has become on the wire. -/
theorem read_text (hs : wire.carry s = s) : [text wire s].foldlM unmarshalString [] = some s := by
  simp [text, unmarshalString, hs]

theorem read_textField (hs : wire.carry s = s) :
    (if s = [] then [] else [text wire s]).foldlM unmarshalString [] = some s := by
  split_ifs with hempty
  · rw [hempty]
    rfl
  · exact read_text hs

/-- The headers that are written: none, or the host. -/
theorem read_headers {headers : List (String × Bytes)} (h : headers.length ≤ 1)
    (hcarried : ∀ header ∈ headers, wire.carry header.2 = header.2) :
    (if headers = [] then [] else
      [JsonValue.object (headers.map fun header => (header.1, text wire header.2))]).foldlM
      unmarshalStringMap [] = some headers := by
  match headers, h with
  | [], _ => rfl
  | [(key, value)], _ =>
    have hvalue := hcarried (key, value) (by simp)
    rw [if_neg (List.cons_ne_nil _ _)]
    simp [unmarshalStringMap, JsonValue.storeEntry, text, unmarshalString, hvalue]

/-- The texts of a transport survive the wire. -/
structure TransportCarried (wire : JsonWire) (t : OutboundTransport) : Prop where
  type : wire.carry t.type = t.type
  path : wire.carry t.path = t.path
  serviceName : wire.carry t.serviceName = t.serviceName
  headers : t.headers.length ≤ 1
  header : ∀ header ∈ t.headers, wire.carry header.2 = header.2

theorem readTransportSettings_json {t : OutboundTransport} (h : TransportCarried wire t) :
    readTransportSettings (.object (t.fields wire)) =
      some ⟨t.type, t.path, t.serviceName, t.host.json wire, t.headers⟩ := by
  simp [readTransportSettings, unmarshalFields,
    OutboundTransport.fields, JsonFields.read, get?, read_text h.type,
    read_textField h.path, read_textField h.serviceName, read_headers h.headers h.header,
    getLast?_toList]

/-- The keys of a transport are the admitted ones. -/
theorem onlyJSONKeys_transport (t : OutboundTransport) :
    onlyJSONKeys (some (.object (t.fields wire)))
      ["type", "path", "headers", "host", "service_name"] = true := by
  change only _ _ = true
  simp [OutboundTransport.fields]

/-- The loop over no header, or over the host alone. -/
theorem headerHost_visit (order : MapOrder) (host : Bytes) :
    headerHost (order.visit (if host ≠ [] then [("Host", host)] else [])) [] = .ok host := by
  split_ifs with hne
  · have hvisit := order.perm [("Host", host)]
    rw [List.perm_singleton] at hvisit
    rw [hvisit]
    rfl
  · have hvisit := order.perm []
    rw [List.perm_nil] at hvisit
    rw [hvisit]
    rw [not_not] at hne
    rw [hne]
    rfl

/-- A transport that is written is read field by field. -/
theorem readTransport_json {t : OutboundTransport} (h : TransportCarried wire t) (host : Bytes)
    (hheaders : t.headers = if host ≠ [] then [("Host", host)] else []) :
    readTransport unicode order (some (.object (t.fields wire))) =
      newTransport unicode ⟨t.type, t.path, t.serviceName, t.host.json wire, t.headers⟩ host := by
  have hhost := headerHost_visit order host
  rw [← hheaders] at hhost
  unfold readTransport
  simp only [onlyJSONKeys_transport, Bool.not_true, Bool.false_eq_true, if_false,
    readTransportSettings_json h, orFail]
  exact (congrArg (· >>= _) hhost).trans rfl

theorem orElse_ok {ε : Type} {result : Except ε α} {value : α} (h : result = .ok value)
    (diagnostic : Except Diagnostic α) :
    orElse result diagnostic = .ok value := by
  rw [h, orElse]

/-- A list of strings is read as it was written. -/
theorem unmarshalStrings_texts {texts : List Bytes}
    (h : ∀ s ∈ texts, validUTF8 s = true) :
    unmarshalStrings [] (.array (texts.map (text wire))) = some texts := by
  have hsame : texts.map (text wire) = texts.map .string :=
    List.map_congr_left fun s hs => by rw [text, wire.faithful s (h s hs)]
  rw [hsame]
  exact JsonValue.unmarshalItems_strings texts

/-- **The transport is read back.** -/
theorem readTransport_render {t : Transport} (h : t.Normal unicode) (hquic : t.kind ≠ .quic)
    {rendered : Option OutboundTransport} (hrender : renderTransport t = .ok rendered) :
    readTransport unicode order (rendered.map fun r => .object (r.fields wire)) = .ok t := by
  have hrenew := h.renew
  unfold renderTransport at hrender
  unfold Transport.renew at hrenew
  cases hkind : t.kind with
  | unknown | xhttp => rw [hkind] at hrender; cases hrender
  | quic => exact absurd hkind hquic
  | tcp =>
    rw [hkind] at hrender hrenew
    obtain rfl := Except.ok.inj hrender
    rw [Option.map_none, readTransport]
    exact congrArg Except.ok (Except.ok.inj hrenew)
  | webSocket =>
    rw [hkind] at hrender hrenew
    obtain rfl := Except.ok.inj hrender
    refine (readTransport_json ⟨wire.faithful (ascii "ws") (by decide),
      wire.faithful _ h.webSocketPath, wire.carry_nil, ?_, ?_⟩ t.webSocketHost rfl).trans ?_
    · change (if t.webSocketHost ≠ [] then [("Host", t.webSocketHost)] else []).length ≤ 1
      split_ifs <;> simp
    · intro header hheader
      change header ∈ (if t.webSocketHost ≠ [] then [("Host", t.webSocketHost)] else []) at hheader
      split_ifs at hheader
      · rw [List.mem_singleton.mp hheader]
        exact wire.faithful _ h.webSocketHost
      · cases hheader
    · rw [newTransport, if_pos rfl]
      exact orElse_ok hrenew _
  | http2 =>
    rw [hkind] at hrender hrenew
    obtain rfl := Except.ok.inj hrender
    refine (readTransport_json ⟨wire.faithful (ascii "http") (by decide),
      wire.faithful _ h.path, wire.carry_nil, Nat.zero_le _, by simp⟩ [] rfl).trans ?_
    rw [newTransport, if_neg (show ascii "http" ≠ ascii "ws" by decide), if_pos rfl]
    by_cases hhost : t.host = []
    · rw [hhost] at hrenew
      simp only [hhost]
      exact orElse_ok hrenew _
    · simp only [ne_eq, hhost, not_false_eq_true, if_true]
      have hitems : unmarshalStrings [] (.array ([t.host].map (text wire))) =
          some [t.host] := unmarshalStrings_texts (by simp [h.host])
      simp only [HostValue.json, hitems]
      exact orElse_ok hrenew _
  | httpUpgrade =>
    rw [hkind] at hrender hrenew
    obtain rfl := Except.ok.inj hrender
    refine (readTransport_json ⟨wire.faithful (ascii "httpupgrade") (by decide),
      wire.faithful _ h.path, wire.carry_nil, Nat.zero_le _, by simp⟩ [] rfl).trans ?_
    rw [newTransport, if_neg (show ascii "httpupgrade" ≠ ascii "ws" by decide),
      if_neg (show ascii "httpupgrade" ≠ ascii "http" by decide), if_pos rfl]
    have hhost : unmarshalPresent unmarshalString []
        (HostValue.json wire (.string t.host)) = some t.host := by
      simp [unmarshalPresent, HostValue.json, text, unmarshalString, wire.faithful _ h.host]
    simp only [hhost]
    exact orElse_ok hrenew _
  | grpc =>
    rw [hkind] at hrender hrenew
    obtain rfl := Except.ok.inj hrender
    refine (readTransport_json ⟨wire.faithful (ascii "grpc") (by decide),
      wire.carry_nil, wire.faithful _ h.service, Nat.zero_le _, by simp⟩ [] rfl).trans ?_
    rw [newTransport, if_neg (show ascii "grpc" ≠ ascii "ws" by decide),
      if_neg (show ascii "grpc" ≠ ascii "http" by decide),
      if_neg (show ascii "grpc" ≠ ascii "httpupgrade" by decide), if_pos rfl]
    exact orElse_ok hrenew _

/-! ## TLS -/

theorem read_listField {texts : List Bytes} (h : ∀ s ∈ texts, validUTF8 s = true) :
    (if texts = [] then [] else [JsonValue.array (texts.map (text wire))]).foldlM
      unmarshalStrings [] = some texts := by
  split_ifs with hempty
  · rw [hempty]
    rfl
  · rw [List.foldlM_cons, unmarshalStrings_texts h]
    rfl

theorem readTLSSettings_json {t : OutboundTLS}
    (hserverName : wire.carry t.serverName = t.serverName)
    (halpn : ∀ s ∈ t.alpn, validUTF8 s = true) :
    readTLSSettings (.object (t.fields wire)) =
      some ⟨t.enabled, t.serverName, t.insecure, t.alpn, t.utls.map (UTLSConfig.json wire),
        t.reality.map (RealityConfig.json wire)⟩ := by
  have hbool : ∀ b : Bool, [JsonValue.bool b].foldlM unmarshalBool false = some b :=
    fun b => rfl
  simp [readTLSSettings, unmarshalFields, OutboundTLS.fields,
    JsonFields.read, get?, hbool, read_text hserverName, read_listField halpn,
    getLast?_toList]

theorem readUTLS_json {fingerprint : Bytes} (h : validUTF8 fingerprint = true) :
    readUTLS (some (UTLSConfig.json wire ⟨true, fingerprint⟩)) = .ok fingerprint := by
  simp [readUTLS, UTLSConfig.json, onlyJSONKeys, unmarshalFields, JsonFields.read,
    text, unmarshalBool, unmarshalString, wire.faithful _ h]

theorem readReality_json {settings : TLSSettings} {r : Reality} (h : r.Normal unicode)
    (hserverName : settings.serverName ≠ []) (hinsecure : settings.insecure = false)
    (hreality : settings.reality =
      some (RealityConfig.json wire ⟨true, r.publicKey, r.shortID⟩)) :
    readReality unicode settings = .ok (some r) := by
  simp [readReality, hreality, RealityConfig.json, onlyJSONKeys, unmarshalFields,
    JsonFields.read, text, unmarshalBool, unmarshalString, hserverName,
    hinsecure, wire.faithful _ h.publicKey, wire.faithful _ h.shortID, h.renew, orElse, Except.map]

/-- The keys of a TLS part are the admitted ones. -/
theorem onlyJSONKeys_tls (t : OutboundTLS) :
    onlyJSONKeys (some (.object (t.fields wire)))
      ["enabled", "server_name", "insecure", "alpn", "utls", "reality"] = true := by
  change only _ _ = true
  simp [OutboundTLS.fields]

/-- **The TLS part is read back**, with the security options. -/
theorem readTLS_render (h : c.Normal unicode) :
    readTLS unicode ((renderTLS c).map fun t => .object (t.fields wire)) =
      .ok (c.tls, c.securityOptions) := by
  cases henabled : c.tls.enabled with
  | false =>
    rw [renderTLS, henabled, h.options.security henabled, h.tls.disabled henabled]
    rfl
  | true =>
    have hsecurity := h.security
    have hutls : readUTLS ((if c.securityOptions.fingerprint ≠ [] then
        some (⟨true, c.securityOptions.fingerprint⟩ : UTLSConfig) else none).map
        (UTLSConfig.json wire)) = .ok c.securityOptions.fingerprint := by
      split_ifs with hne
      · exact readUTLS_json hsecurity.fingerprint
      · rw [not_not] at hne
        rw [hne]
        rfl
    have hreality : ∀ settings : TLSSettings, settings.serverName = c.tls.serverName →
        settings.insecure = c.tls.insecureSkipVerify →
        settings.reality = (c.securityOptions.reality.map fun r =>
          (⟨true, r.publicKey, r.shortID⟩ : RealityConfig)).map (RealityConfig.json wire) →
        readReality unicode settings = .ok c.securityOptions.reality := by
      intro settings hname hinsecure hjson
      cases hr : c.securityOptions.reality with
      | none =>
        rw [hr] at hjson
        rw [readReality, hjson]
        rfl
      | some r =>
        have hstrict := h.options.reality (by rw [hr]; exact Option.some_ne_none r)
        rw [hr] at hjson
        refine readReality_json (hsecurity.reality r hr) ?_ (hinsecure.trans hstrict) hjson
        rw [hname]
        exact h.consistent.serverName henabled
    rw [renderTLS, if_pos henabled, Option.map_some]
    unfold readTLS
    simp only [onlyJSONKeys_tls, Bool.not_true, Bool.false_eq_true, if_false]
    refine bind_eq_ok.mpr ⟨_, orFail_some (readTLSSettings_json
      (wire.faithful _ h.tls.serverName.validUTF8) hsecurity.alpn) _, ?_⟩
    rw [if_neg (by simp)]
    refine bind_eq_ok.mpr ⟨_, orElse_ok (newTLS_normal h.tls henabled) _, ?_⟩
    refine bind_eq_ok.mpr ⟨_, hutls, ?_⟩
    refine bind_eq_ok.mpr ⟨_, hreality _ rfl rfl rfl, ?_⟩
    exact bind_eq_ok.mpr ⟨_, orElse_ok hsecurity.renew _, rfl⟩

/-! ## Outbounds other than Hysteria2 -/

/-- The parser, from the results of its parts. -/
theorem parseSingBoxOutbound_eq {record : OutboundRecord} {address : Address}
    {transport : Transport} {tls : TLSConfig} {security : SecurityOptions}
    (hkind : kind ∈ outboundKinds) (hkeys : checkKeys object kind = .ok ())
    (hrecord : readRecord object = .ok record) (hoptions : checkOptions object kind record = .ok ())
    (haddress : newAddress unicode record.server record.serverPort = .ok address)
    (htransport : readTransport unicode order (object.get? "transport") = .ok transport)
    (htls : readTLS unicode (object.get? "tls") = .ok (tls, security))
    (hnew : newOutbound object kind record address transport tls security = .ok c) :
    parseSingBoxOutbound unicode order object kind = .ok ⟨c, record.tag⟩ := by
  have hhysteria : kind ≠ ascii "hysteria2" := by
    rintro rfl
    exact absurd hkind (by decide)
  rw [parseSingBoxOutbound, if_neg hhysteria, if_neg (not_not.mpr hkind)]
  refine bind_eq_ok.mpr ⟨(), hkeys, bind_eq_ok.mpr ⟨record, hrecord, ?_⟩⟩
  refine bind_eq_ok.mpr ⟨(), hoptions, bind_eq_ok.mpr ⟨address, orElse_ok haddress _, ?_⟩⟩
  refine bind_eq_ok.mpr ⟨transport, htransport, bind_eq_ok.mpr ⟨(tls, security), htls, ?_⟩⟩
  exact bind_eq_ok.mpr ⟨c, hnew, rfl⟩

/-- Only Hysteria2 has keys that the other outbounds do not have. -/
theorem only_outboundKeys (hup : o.upMbps = 0) (hdown : o.downMbps = 0) (hobfs : o.obfs = none)
    (hports : o.serverPorts = []) :
    only outboundKeys (o.fields wire) = true := by
  simp [Outbound.fields, outboundKeys, hup, hdown, hobfs, hports]

theorem get?_text {key : String} (h : (key, s) ∈ texts o) (hs : s = []) :
    (o.fields wire).get? key = none := by
  rw [get?, values_texts o (key, s) h, if_neg (not_not.mpr hs)]
  rfl

/-- An outbound with the options of its kind. -/
structure Admissible (o : Outbound) : Prop where
  alterID : o.alterID = none ∨ o.alterID = some 0
  flow : o.flow = [] ∨ o.type = ascii "vless" ∧ o.flow = VLESSFlow.vision.string
  version : o.type = ascii "socks" ∨ o.version = []
  username : o.type = ascii "socks" ∨ o.type = ascii "http" ∨ o.username = []
  network : o.network = [] ∨ o.network = ascii "tcp"

theorem checkOptions_fields (h : Admissible o) :
    checkOptions (o.fields wire) o.type (recordOf wire o) = .ok () := by
  have halter : o.alterID.getD 0 = 0 := by
    rcases h.alterID with hnone | hzero
    · rw [hnone]; rfl
    · rw [hzero]; rfl
  have hflow : ¬(decide (o.alterID.getD 0 ≠ 0) || decide (o.flow ≠ []) &&
      (decide (o.type ≠ ascii "vless") || decide (o.flow ≠ VLESSFlow.vision.string))) = true := by
    rw [halter]
    rcases h.flow with hempty | ⟨htype, hvision⟩
    · simp [hempty]
    · simp [htype, hvision]
  have hversion : ¬(decide (o.type ≠ ascii "socks") && ((o.fields wire).get? "version").isSome ||
      decide (o.type ≠ ascii "socks") && decide (o.type ≠ ascii "http") &&
        ((o.fields wire).get? "username").isSome) = true := by
    have hv : o.version = [] → ((o.fields wire).get? "version") = none :=
      get?_text (by simp [texts])
    have hu : o.username = [] → ((o.fields wire).get? "username") = none :=
      get?_text (by simp [texts])
    rcases h.version with hsocks | hversion
    · simp [hsocks]
    · rcases h.username with hsocks | hhttp | husername
      · simp [hsocks]
      · simp [hhttp, hv hversion]
      · simp [hv hversion, hu husername]
  have hnetwork : ¬(decide (o.network ≠ []) && decide (o.network ≠ ascii "tcp")) = true := by
    rcases h.network with hempty | htcp
    · simp [hempty]
    · simp [htcp]
  rw [checkOptions]
  exact (if_neg hflow).trans ((if_neg hversion).trans (if_neg hnetwork))

theorem validUTF8_method {protocol : Protocol} {method : Bytes}
    (h : AdmittedMethod protocol method) :
    validUTF8 method = true := by
  have hvmess : ∀ m ∈ vmessMethods, validUTF8 m = true := by decide +kernel
  have hshadowsocks : ∀ m ∈ shadowsocksMethods, validUTF8 m = true := by decide +kernel
  rcases h with rfl | ⟨-, h⟩ | ⟨-, h⟩
  · rfl
  · exact hvmess method h
  · exact hshadowsocks method h

theorem validUTF8_flow (flow : VLESSFlow) : validUTF8 flow.string = true := by
  cases flow with
  | none => rfl
  | other => rfl
  | vision => decide +kernel

/-- The flat texts of a rendered outbound survive the wire. -/
theorem carried_of_renderProtocol (h : item.record.configuration.Normal unicode)
    (hrender : renderProtocol (commonOutbound item) item.record.configuration = .ok result) :
    Carried wire result := by
  have hhost := wire.faithful _ h.host.validUTF8
  have hsecret := wire.faithful _ h.credential.secret
  have husername := wire.faithful _ h.credential.username
  have hmethod := wire.faithful _ (validUTF8_method h.method)
  have hflow := wire.faithful _ (validUTF8_flow item.record.configuration.flow)
  have htcp := wire.faithful (ascii "tcp") (by decide)
  have hversion := wire.faithful (ascii "5") (by decide)
  have hnil := wire.carry_nil
  unfold renderProtocol at hrender
  split at hrender
  case h_7 =>
    -- the options of Hysteria2 change none of these texts
    simp only at hrender
    split at hrender
    · obtain rfl := Except.ok.inj hrender
      simp [Carried, texts, commonOutbound, renderHysteria2, hhost, hsecret, hflow, hnil]
    · obtain rfl := Except.ok.inj hrender
      simp [Carried, texts, commonOutbound, hhost, hsecret, hflow, hnil]
  case h_8 => cases hrender
  all_goals
    obtain rfl := Except.ok.inj hrender
    simp [Carried, texts, commonOutbound, hhost, hsecret, husername, hmethod, hflow, htcp,
      hversion, hnil]

/-- An outbound is read back if its keys and options are those of its kind, and the last step
of the parser gives the configuration. -/
theorem parse_plain (htype : o.type = kind) (h : c.Normal unicode)
    (hquic : c.transport.kind ≠ .quic) (hrender : renderTransport c.transport = .ok o.transport)
    (htls : o.tls = renderTLS c) (hserver : o.server = c.address.host)
    (hport : o.serverPort = c.address.port.val) (hcarried : Carried wire o)
    (hadmissible : Admissible o) (hkind : kind ∈ outboundKinds)
    (hkeys : checkKeys (o.fields wire) kind = .ok ())
    (hnew : newOutbound (o.fields wire) kind (recordOf wire o) c.address c.transport c.tls
      c.securityOptions = .ok c) :
    parseSingBoxOutbound unicode order (o.fields wire) kind = .ok ⟨c, wire.carry o.tag⟩ := by
  subst htype
  obtain ⟨-, -, -, -, htlsValues, htransportValues⟩ := values_fields wire o
  have hvalid : c.address.port ≠ 0 := by
    have haddress := h.checked.address
    simp only [Address.valid, Bool.and_eq_true, decide_eq_true_eq] at haddress
    exact haddress.1.2
  have haddress : newAddress unicode (recordOf wire o).server (recordOf wire o).serverPort =
      .ok c.address := by
    change newAddress unicode o.server (o.serverPort : Int) = _
    rw [hserver, hport]
    exact newAddress_address h.host hvalid
  have hrecord : readRecord (o.fields wire) = .ok (recordOf wire o) := by
    refine readRecord_fields hcarried ?_ ?_ hadmissible.alterID
    · rw [hport]
      exact fun hzero => hvalid (Fin.ext hzero)
    · rw [hport]
      exact c.address.port.isLt
  refine parseSingBoxOutbound_eq hkind hkeys hrecord (checkOptions_fields hadmissible) haddress ?_
    ?_ hnew
  · rw [get?, htransportValues, getLast?_toList]
    exact readTransport_render h.transport hquic hrender
  · rw [get?, htlsValues, getLast?_toList, htls]
    exact readTLS_render h

theorem checkKeys_eq_ok (h : only outboundKeys object = true)
    (hproxy : kind = ascii "socks" ∨ kind = ascii "http" →
      only (proxyKeys kind) object = true) : checkKeys object kind = .ok () := by
  have hsecond : ¬((decide (kind = ascii "socks") || decide (kind = ascii "http")) &&
      !only (proxyKeys kind) object) = true := by
    simp only [Bool.and_eq_true, Bool.or_eq_true, decide_eq_true_eq, Bool.not_eq_true', not_and,
      Bool.not_eq_false]
    exact hproxy
  rw [checkKeys, if_neg (by simp [h]), if_neg hsecond]

/-- The keys of an outbound other than SOCKS, HTTP and Hysteria2. -/
theorem checkKeys_plain (hup : o.upMbps = 0) (hdown : o.downMbps = 0) (hobfs : o.obfs = none)
    (hports : o.serverPorts = []) (htype : kind ≠ ascii "socks" ∧ kind ≠ ascii "http") :
    checkKeys (o.fields wire) kind = .ok () :=
  checkKeys_eq_ok (only_outboundKeys hup hdown hobfs hports) fun h => (not_or.mpr htype h).elim

section Protocols

variable {c : Configuration} {object : JsonFields} {record : OutboundRecord}

section

variable (h : c.Normal unicode)
include h

/-- The constructor of its protocol takes the credential to itself. -/
theorem renewed {protocol : Protocol} (hprotocol : c.protocol = protocol) :
    Credential.renew { c.credential with protocol } = .ok c.credential := by
  rw [← hprotocol, ← h.checked.credentialProtocol]
  exact h.credential.renew

/-- The flow of a configuration is that of its record. -/
theorem flow_of_string : (if c.flow.string ≠ [] then VLESSFlow.vision else .none) = c.flow := by
  by_cases hflow : c.flow = .none
  · rw [hflow]
    rfl
  · rw [(h.options.flow hflow).1]
    exact if_pos (by decide)

theorem newOutbound_vless (hprotocol : c.protocol = .vless)
    (huuid : record.uuid = c.credential.reveal) (hpassword : record.password = [])
    (hmethod : record.method = []) (hsecurity : record.security = [])
    (hflow : record.flow = c.flow.string) :
    newOutbound object (ascii "vless") record c.address c.transport c.tls c.securityOptions =
      .ok c := by
  have hnew := newExtendedConfigurationWith_normal h (by rw [hprotocol]; decide)
  have hnomethod : c.method = [] :=
    h.method_eq_nil (by rw [hprotocol]; decide) (by rw [hprotocol]; decide)
  rw [hprotocol, hnomethod, h.options.noHysteria (by rw [hprotocol]; decide)] at hnew
  rw [newOutbound, if_pos rfl, if_neg (by simp [hpassword, hmethod, hsecurity])]
  refine orElse_ok (bind_eq_ok.mpr ⟨c.credential, ?_, ?_⟩) _
  · rw [huuid]
    exact renewed h hprotocol
  · rw [hflow, flow_of_string h]
    exact hnew

theorem newOutbound_trojan (hprotocol : c.protocol = .trojan) (hadvanced : c.advanced = none)
    (hoptions : c.securityOptions = {}) (hpassword : record.password = c.credential.reveal)
    (huuid : record.uuid = []) (hmethod : record.method = []) (hsecurity : record.security = []) :
    newOutbound object (ascii "trojan") record c.address c.transport c.tls c.securityOptions =
      .ok c := by
  have hnomethod : c.method = [] :=
    h.method_eq_nil (by rw [hprotocol]; decide) (by rw [hprotocol]; decide)
  have hnew := newConfiguration_normal h hadvanced hnomethod (.inr hprotocol)
  rw [hprotocol] at hnew
  rw [newOutbound, if_neg (by decide), if_pos rfl, if_neg (by rw [hoptions]; decide),
    if_neg (by simp [huuid, hmethod, hsecurity])]
  refine orElse_ok (bind_eq_ok.mpr ⟨c.credential, ?_, hnew⟩) _
  rw [hpassword]
  exact renewed h hprotocol

theorem newOutbound_vmess (hprotocol : c.protocol = .vmess) (hadvanced : c.advanced = none)
    (hoptions : c.securityOptions = {}) (huuid : record.uuid = c.credential.reveal)
    (hpassword : record.password = []) (hmethod : record.method = [])
    (hsecurity : record.security = c.method) :
    newOutbound object (ascii "vmess") record c.address c.transport c.tls c.securityOptions =
      .ok c := by
  have hvalue : valueOr record.security (ascii "auto") = c.method := by
    rw [hsecurity, valueOr, if_neg (h.consistent.method (.inl hprotocol))]
  rw [newOutbound, if_neg (by decide), if_neg (by decide), if_pos rfl,
    if_neg (by rw [hoptions]; decide), if_neg (by simp [hpassword, hmethod])]
  refine orElse_ok (bind_eq_ok.mpr ⟨c.credential, ?_, ?_⟩) _
  · rw [huuid]
    exact renewed h hprotocol
  · rw [hvalue]
    exact newVMessConfiguration_normal h hadvanced hprotocol

theorem newOutbound_shadowsocks (hprotocol : c.protocol = .shadowsocks)
    (hpassword : record.password = c.credential.reveal) (huuid : record.uuid = [])
    (hmethod : record.method = c.method) (hsecurity : record.security = []) :
    newOutbound object (ascii "shadowsocks") record c.address c.transport c.tls
      c.securityOptions = .ok c := by
  obtain ⟨hkind, hdisabled⟩ := h.consistent.plain hprotocol
  rw [newOutbound, if_neg (by decide), if_neg (by decide), if_neg (by decide), if_pos rfl,
    if_neg (by simp [huuid, hsecurity, hkind, hdisabled])]
  refine orElse_ok (bind_eq_ok.mpr ⟨c.credential, ?_, ?_⟩) _
  · rw [hpassword]
    exact renewed h hprotocol
  · rw [hmethod]
    exact newShadowsocksConfiguration_normal h hprotocol

/-- The end of both proxy protocols. -/
theorem newProxy_normal
    (hprotocol : kind = ascii "socks" ∧ c.protocol = .socks5 ∧ (record.version = [] ∨
      record.version = ascii "5") ∨ kind = ascii "http" ∧ c.protocol = .httpProxy ∧
        object.get? "network" = none)
    (husername : record.username = c.credential.username)
    (hpassword : record.password = c.credential.reveal) (huuid : record.uuid = [])
    (hmethod : record.method = []) (hsecurity : record.security = [])
    (htransport : object.get? "transport" = none) :
    newProxy object kind record c.address c.transport c.tls = .ok c := by
  have hproxy : c.protocol = .socks5 ∨ c.protocol = .httpProxy := by
    rcases hprotocol with ⟨-, hp, -⟩ | ⟨-, hp, -⟩
    · exact .inl hp
    · exact .inr hp
  have hcredential : newProxyCredential c.protocol c.credential.username c.credential.reveal =
      .ok c.credential := by
    rcases hproxy with hp | hp
    · rw [hp]
      exact renewed h hp
    · rw [hp]
      exact renewed h hp
  obtain ⟨-, hoptions, hflow⟩ := h.options.proxy hproxy
  have hne : c.protocol ≠ .shadowsocks ∧ c.protocol ≠ .hysteria2 ∧ c.protocol ≠ .vmess := by
    rcases hproxy with hp | hp <;> rw [hp] <;> decide
  have hnomethod : c.method = [] := h.method_eq_nil hne.2.2 hne.1
  have hnew := newExtendedConfigurationWith_normal h hne.1
  rw [hoptions, hflow, hnomethod, h.options.noHysteria hne.2.1] at hnew
  have hkind : (if kind = ascii "socks" then Protocol.socks5 else .httpProxy) = c.protocol := by
    rcases hprotocol with ⟨hk, hp, -⟩ | ⟨hk, hp, -⟩
    · rw [hk, hp]
      exact if_pos rfl
    · rw [hk, hp]
      exact if_neg (by decide)
  have hversion : ¬(decide (kind = ascii "socks") && decide (record.version ≠ []) &&
      decide (record.version ≠ ascii "5")) = true := by
    rcases hprotocol with ⟨-, -, hv | hv⟩ | ⟨hk, -, -⟩
    · simp [hv]
    · simp [hv]
    · rw [hk]
      simp [show ascii "http" ≠ ascii "socks" by decide]
  have hplain : ¬(decide (kind = ascii "socks") && c.tls.enabled ||
      decide (kind = ascii "http") && (object.get? "network").isSome) = true := by
    rcases hprotocol with ⟨hk, hp, -⟩ | ⟨hk, -, hnetwork⟩
    · rw [hk, h.options.socks hp]
      simp [show ascii "socks" ≠ ascii "http" by decide]
    · rw [hk, hnetwork]
      simp [show ascii "http" ≠ ascii "socks" by decide]
  rw [newProxy, if_neg (by simp [huuid, hmethod, hsecurity, htransport]), if_neg hversion,
    if_neg hplain]
  refine bind_eq_ok.mpr ⟨c.credential, orElse_ok ?_ _, orElse_ok ?_ _⟩
  · rw [hkind, husername, hpassword]
    exact hcredential
  · rw [hkind]
    exact hnew

end

end Protocols

/-- **Every outbound other than Hysteria2 is read back.** -/
theorem parse_rendered {transport : Option OutboundTransport}
    (h : item.record.configuration.Normal unicode)
    (hprotocol : item.record.configuration.protocol ≠ .hysteria2)
    (haccepted : AcceptedConnection singBox1141 item.record.configuration)
    (hresult : renderProtocol (commonOutbound item) item.record.configuration = .ok result)
    (hrender : renderTransport item.record.configuration.transport = .ok transport) :
    parseSingBoxOutbound unicode order (Outbound.fields wire
      { result with tls := renderTLS item.record.configuration, transport := transport })
      result.type = .ok ⟨item.record.configuration, wire.carry item.name⟩ := by
  set c := item.record.configuration with hc
  have hcarried : Carried wire { result with tls := renderTLS c, transport := transport } :=
    fun field hfield => carried_of_renderProtocol h hresult field hfield
  have hquic := haccepted.kind_ne_quic
  have htcp : ascii "tcp" = [] ∨ ascii "tcp" = ascii "tcp" := .inr rfl
  unfold renderProtocol at hresult
  by_cases hp : c.protocol = .vless
  · rw [hp] at hresult
    obtain rfl := Except.ok.inj hresult
    change parseSingBoxOutbound unicode order _ (ascii "vless") = _
    refine parse_plain rfl h hquic hrender rfl rfl rfl hcarried ?_ (by decide)
      (checkKeys_plain rfl rfl rfl rfl (by decide))
      (newOutbound_vless h hp rfl rfl rfl rfl rfl)
    refine ⟨.inl rfl, ?_, .inr rfl, .inr (.inr rfl), htcp⟩
    by_cases hflow : c.flow = .none
    · left
      change c.flow.string = []
      rw [hflow]
      rfl
    · right
      refine ⟨rfl, ?_⟩
      change c.flow.string = _
      rw [(h.options.flow hflow).1]
  obtain ⟨hsecurity, hflow, -⟩ := haccepted.plain hp
  have hnoflow : c.flow.string = [] := by
    rw [hflow]
    rfl
  cases hp : c.protocol with
  | vless => contradiction
  | unknown => exact absurd hp h.consistent.protocol
  | hysteria2 => exact absurd hp hprotocol
  | trojan =>
    have hadvanced := haccepted.advanced_eq_none h (.inl hp)
    rw [hp] at hresult
    obtain rfl := Except.ok.inj hresult
    change parseSingBoxOutbound unicode order _ (ascii "trojan") = _
    exact parse_plain rfl h hquic hrender rfl rfl rfl hcarried
      ⟨.inl rfl, .inl hnoflow, .inr rfl, .inr (.inr rfl), htcp⟩ (by decide)
      (checkKeys_plain rfl rfl rfl rfl (by decide))
      (newOutbound_trojan h hp hadvanced hsecurity rfl rfl rfl rfl)
  | vmess =>
    have hadvanced := haccepted.advanced_eq_none h (.inr hp)
    rw [hp] at hresult
    obtain rfl := Except.ok.inj hresult
    change parseSingBoxOutbound unicode order _ (ascii "vmess") = _
    exact parse_plain rfl h hquic hrender rfl rfl rfl hcarried
      ⟨.inr rfl, .inl hnoflow, .inr rfl, .inr (.inr rfl), htcp⟩ (by decide)
      (checkKeys_plain rfl rfl rfl rfl (by decide))
      (newOutbound_vmess h hp hadvanced hsecurity rfl rfl rfl rfl)
  | shadowsocks =>
    rw [hp] at hresult
    obtain rfl := Except.ok.inj hresult
    change parseSingBoxOutbound unicode order _ (ascii "shadowsocks") = _
    exact parse_plain rfl h hquic hrender rfl rfl rfl hcarried
      ⟨.inl rfl, .inl hnoflow, .inr rfl, .inr (.inr rfl), htcp⟩ (by decide)
      (checkKeys_plain rfl rfl rfl rfl (by decide))
      (newOutbound_shadowsocks h hp rfl rfl rfl rfl)
  | socks5 =>
    have hkind := (h.options.proxy (.inl hp)).1
    obtain rfl : none = transport := by
      rw [renderTransport, hkind] at hrender
      exact Except.ok.inj hrender
    have htls : renderTLS c = none := by
      rw [renderTLS, h.options.socks hp]
      rfl
    rw [hp] at hresult
    obtain rfl := Except.ok.inj hresult
    change parseSingBoxOutbound unicode order _ (ascii "socks") = _
    refine parse_plain rfl h hquic hrender rfl rfl rfl hcarried
      ⟨.inl rfl, .inl hnoflow, .inl rfl, .inl rfl, htcp⟩ (by decide)
      (checkKeys_eq_ok (only_outboundKeys rfl rfl rfl rfl) fun _ => ?_) ?_
    · simp [Outbound.fields, commonOutbound, proxyKeys, ← hc, hnoflow, htls]
    · rw [newOutbound, if_neg (by decide), if_neg (by decide), if_neg (by decide),
        if_neg (by decide)]
      refine newProxy_normal h (.inl ⟨rfl, hp, .inr rfl⟩) rfl rfl rfl rfl rfl ?_
      rw [get?, (values_fields wire _).2.2.2.2.2]
      rfl
  | httpProxy =>
    have hkind := (h.options.proxy (.inr hp)).1
    obtain rfl : none = transport := by
      rw [renderTransport, hkind] at hrender
      exact Except.ok.inj hrender
    rw [hp] at hresult
    obtain rfl := Except.ok.inj hresult
    change parseSingBoxOutbound unicode order _ (ascii "http") = _
    refine parse_plain rfl h hquic hrender rfl rfl rfl hcarried
      ⟨.inl rfl, .inl hnoflow, .inr rfl, .inr (.inl rfl), .inl rfl⟩ (by decide)
      (checkKeys_eq_ok (only_outboundKeys rfl rfl rfl rfl) fun _ => ?_) ?_
    · simp [Outbound.fields, commonOutbound, proxyKeys, ← hc, hnoflow]
    · rw [newOutbound, if_neg (by decide), if_neg (by decide), if_neg (by decide),
        if_neg (by decide)]
      refine newProxy_normal h (.inr ⟨rfl, hp, ?_⟩) rfl rfl rfl rfl rfl ?_
      · exact get?_text (by simp [texts]) rfl
      · rw [get?, (values_fields wire _).2.2.2.2.2]
        rfl

/-! ## Hysteria2 -/

/-- The configuration that a rendered outbound stands for.  Where sing-box is given a list of
ports it has no place for the port of the address. -/
def reached (c : Configuration) : Configuration :=
  match c.hysteria2 with
  | none => c
  | some options =>
    match options.portRanges with
    | [] => c
    | entry :: _ =>
      { c with address :=
        { c.address with port := Fin.ofNat 65536 (portRange entry).1.toNat } }

/-- The first port is a port. -/
theorem first_port (h : c.Normal unicode) {options : Hysteria2Options}
    (hoptions : c.hysteria2 = some options) {entry : Bytes} {rest : List Bytes}
    (hports : options.portRanges = entry :: rest) :
    ∃ first last : Int, 1 ≤ first ∧ first ≤ last ∧ last ≤ 65535 ∧
      entry = portRangeText first last ∧ portRange entry = (first, last) := by
  obtain ⟨first, last, hfirst, hle, hlast, rfl⟩ :=
    (h.hysteria options hoptions).range entry (by rw [hports]; simp)
  exact ⟨first, last, hfirst, hle, hlast, rfl, portRange_portRangeText (by omega) hle hlast⟩

/-- The address changes in the port only, and stays one that `NewAddress` returns. -/
theorem reached_built (hunicode : unicode.KeepsNumerals) (hbuilt : c.Built unicode) :
    (reached c).Built unicode := by
  have h := hbuilt.normal hunicode
  unfold reached
  split
  · exact hbuilt
  · rename_i options hoptions
    split
    · exact hbuilt
    · rename_i entry rest hports
      obtain ⟨first, last, hfirst, hle, hlast, -, hrange⟩ := first_port h hoptions hports
      have haddress : newAddress unicode c.address.host first =
          .ok { c.address with port := Fin.ofNat 65536 first.toNat } :=
        newAddress_normal h.host hfirst (hle.trans hlast)
      have hport : (Fin.ofNat 65536 first.toNat : Fin 65536) ≠ 0 := by
        intro hzero
        have hval := congrArg Fin.val hzero
        simp only [Fin.ofNat, Fin.val_zero] at hval
        omega
      have hvalid : ({ c.address with port := Fin.ofNat 65536 first.toNat } : Address).valid =
          true := by
        have hold := h.checked.address
        simp only [Address.valid, Bool.and_eq_true, decide_eq_true_eq] at hold ⊢
        exact ⟨⟨hold.1.1, hport⟩, hold.2⟩
      rw [hrange]
      refine .withAddress hbuilt (.new haddress) ?_
      refine if_neg ?_
      rw [h.valid, hvalid]
      decide

/-- A reached configuration differs in its address only. -/
theorem reached_eq (c : Configuration) : reached c = { c with address := (reached c).address } := by
  unfold reached
  split
  · rfl
  · split
    · rfl
    · rfl

theorem validUTF8_serverPortRange {first last : Int} (hfirst : 0 ≤ first) (hlast : 0 ≤ last) :
    validUTF8 (serverPortRange (portRangeText first last)) = true := by
  rw [serverPortRange_portRangeText hfirst]
  apply validUTF8_of_ascii
  intro b hb
  rcases List.mem_append.mp hb with hb | hb
  · have := digit_of_mem_itoa hfirst hb
    omega
  · rcases List.mem_cons.mp hb with rfl | hb
    · decide
    · have := digit_of_mem_itoa hlast hb
      omega

section Hysteria2

variable {c : Configuration} {options : Hysteria2Options}

/-- The port entries survive the wire, and parse as the same ranges. -/
theorem unmarshalStrings_serverPorts (h : options.Normal) :
    unmarshalStrings []
      (.array ((options.portRanges.map serverPortRange).map (text wire))) =
      some (options.portRanges.map serverPortRange) := by
  apply unmarshalStrings_texts
  intro s hs
  obtain ⟨entry, hentry, rfl⟩ := List.mem_map.mp hs
  obtain ⟨first, last, hfirst, hle, -, rfl⟩ := h.range entry hentry
  exact validUTF8_serverPortRange (by omega) (by omega)

theorem readHysteria2Options_render {record : Hysteria2Record} (h : options.Normal)
    (hup : record.up = options.upMbps) (hdown : record.down = options.downMbps)
    (hobject : object.get? "server_ports" =
      if options.portRanges.map serverPortRange ≠ [] then some (.array ((options.portRanges.map
        serverPortRange).map (text wire))) else none) :
    readHysteria2Options object record options.revealSalamanderPassword = .ok options := by
  rw [readHysteria2Options, hobject]
  by_cases hports : options.portRanges = []
  · have hrenew := h.renew
    rw [← hports] at hrenew
    simp only [hports, List.map_nil, ne_eq, not_true_eq_false, if_false]
    rw [hup, hdown]
    exact orElse_ok hrenew _
  · have hne : options.portRanges.map serverPortRange ≠ [] := by simpa using hports
    rw [if_pos hne]
    simp only [unmarshalStrings_serverPorts h]
    rw [hup, hdown]
    refine orElse_ok (newHysteria2OptionsWithPorts_normal h hports ?_) _
    intro first last hfirst hle hlast
    rw [serverPortRange_portRangeText (by omega)]
    exact parsePortRange_range_text hfirst hle hlast

theorem readHysteria2TLS_render (h : c.Normal unicode) (hprotocol : c.protocol = .hysteria2)
    (hfingerprint : c.securityOptions.fingerprint = []) :
    readHysteria2TLS unicode ((renderTLS c).map fun t => .object (t.fields wire)) =
      .ok (c.tls, c.securityOptions) := by
  have henabled := h.consistent.tlsRequired (.inr hprotocol)
  obtain ⟨-, hreality, -, -⟩ := h.options.hysteria hprotocol
  have hrenew := h.security.renew
  rw [hfingerprint, hreality] at hrenew
  rw [renderTLS, if_pos henabled, hfingerprint, hreality, Option.map_some, readHysteria2TLS]
  rw [if_neg (by simp [onlyJSONKeys, unmarshalFields, OutboundTLS.fields])]
  refine bind_eq_ok.mpr ⟨_, orFail_some ((Option.bind_some _ _).trans (readTLSSettings_json
    (wire.faithful _ h.tls.serverName.validUTF8) h.security.alpn)) _, ?_⟩
  rw [if_neg (by simp)]
  refine bind_eq_ok.mpr ⟨_, orElse_ok (newTLS_normal h.tls henabled) _, ?_⟩
  exact bind_eq_ok.mpr ⟨_, orElse_ok hrenew _, rfl⟩

theorem readObfs_render (h : options.Normal) :
    readObfs ((if options.revealSalamanderPassword ≠ [] then
      some (⟨ascii "salamander", options.revealSalamanderPassword⟩ : Hy2Obfs) else none).map
      (Hy2Obfs.json wire)) = .ok options.revealSalamanderPassword := by
  have htype : wire.carry (ascii "salamander") = ascii "salamander" :=
    wire.faithful _ (by decide +kernel)
  split_ifs with hne
  · rw [Option.map_some]
    simp [readObfs, Hy2Obfs.json, onlyJSONKeys, unmarshalFields, JsonFields.read, text,
      unmarshalString, htype, wire.faithful _ h.obfsPassword, hne]
  · rw [not_not] at hne
    rw [hne]
    rfl

/-- The port of the address, or the first port of the list. -/
theorem readHysteria2Port_render {port : Int} (h : c.Normal unicode)
    (hoptions : c.hysteria2 = some options)
    (hport : port = if options.portRanges.length ≠ 0 then 0 else (c.address.port.val : Int))
    (hobject : object.get? "server_ports" =
      if options.portRanges.map serverPortRange ≠ [] then some (.array ((options.portRanges.map
        serverPortRange).map (text wire))) else none) :
    ∃ port', readHysteria2Port object port = .ok port' ∧
      newAddress unicode c.address.host port' = .ok (reached c).address ∧
      options.includesPort (reached c).address.port = true := by
  have hnormal := h.hysteria options hoptions
  cases hports : options.portRanges with
  | nil =>
    have haddress := h.checked.address
    simp only [Address.valid, Bool.and_eq_true, decide_eq_true_eq] at haddress
    have hreached : reached c = c := by
      rw [reached, hoptions]
      simp only [hports]
    refine ⟨port, ?_, ?_, ?_⟩
    · rw [readHysteria2Port, hobject, hports]
      rfl
    · rw [hport, hports, hreached]
      exact newAddress_address h.host haddress.1.2
    · rw [Hysteria2Options.includesPort, hports]
      rfl
  | cons entry rest =>
    obtain ⟨first, last, hfirst, hle, hlast, rfl, hrange⟩ := first_port h hoptions hports
    have hreached : (reached c).address =
        { c.address with port := Fin.ofNat 65536 first.toNat } := by
      rw [reached, hoptions]
      simp only [hports, hrange]
    refine ⟨first, ?_, ?_, ?_⟩
    · have hne : options.portRanges.map serverPortRange ≠ [] := by simp [hports]
      rw [readHysteria2Port, hobject, if_pos hne]
      simp only [unmarshalStrings_serverPorts hnormal]
      have hzero : port = 0 := by rw [hport, if_pos (by simp [hports])]
      rw [hzero, hports, if_neg (not_not.mpr rfl), List.map_cons]
      simp only [serverPortRange_portRangeText (show 0 ≤ first by omega),
        splitOn_range (show 0 ≤ first by omega) (show 0 ≤ last by omega), List.headD_cons]
      rw [atoiOrZero, atoi_itoa (by omega) (by omega), Option.getD_some]
    · rw [hreached]
      exact newAddress_normal h.host hfirst (hle.trans hlast)
    · have hval : ((Fin.ofNat 65536 first.toNat : Fin 65536).val : Int) = first := by
        simp only [Fin.ofNat]
        omega
      rw [Hysteria2Options.includesPort, hports, hreached, Bool.or_eq_true, List.any_eq_true]
      refine .inr ⟨portRangeText first last, List.mem_cons_self, ?_⟩
      change (decide ((portRange (portRangeText first last)).1 ≤
        ((Fin.ofNat 65536 first.toNat : Fin 65536).val : Int)) &&
        decide (((Fin.ofNat 65536 first.toNat : Fin 65536).val : Int) ≤
          (portRange (portRangeText first last)).2)) = true
      rw [hrange, hval]
      simp [hle]

theorem readHysteria2Record_fields (h : Carried wire o) (hport : o.serverPort < 65536)
    (hup : 0 ≤ o.upMbps ∧ o.upMbps ≤ 100000) (hdown : 0 ≤ o.downMbps ∧ o.downMbps ≤ 100000) :
    readHysteria2Record (o.fields wire) =
      some ⟨wire.carry o.tag, o.server, o.serverPort, o.password, o.upMbps, o.downMbps⟩ := by
  obtain ⟨-, -, hserverPort, -, -, -⟩ := values_fields wire o
  obtain ⟨hupValues, hdownValues, -, -⟩ := values_hysteria2 wire o
  have hnumber : unmarshalPresent unmarshalInt 0 ((o.fields wire).get? "server_port") =
      some (o.serverPort : Int) := by
    have hsame : (if o.serverPort ≠ 0 then [JsonValue.number o.serverPort] else []) =
        if (o.serverPort : Int) ≠ 0 then [JsonValue.number o.serverPort] else [] := by
      simp
    rw [get?, hserverPort, hsame, unmarshalPresent_number (by omega) (by omega)]
  have hupRead : unmarshalPresent unmarshalInt 0 ((o.fields wire).get? "up_mbps") =
      some o.upMbps := by
    rw [get?, hupValues, unmarshalPresent_number hup.1 hup.2]
  have hdownRead : unmarshalPresent unmarshalInt 0 ((o.fields wire).get? "down_mbps") =
      some o.downMbps := by
    rw [get?, hdownValues, unmarshalPresent_number hdown.1 hdown.2]
  rw [readHysteria2Record, read_tag,
    read_texts h (show ("server", o.server) ∈ texts o by simp [texts]), hnumber,
    read_texts h (show ("password", o.password) ∈ texts o by simp [texts]),
    hupRead, hdownRead]
  rfl

/-- **Hysteria2 outbounds are read back**, up to the port. -/
theorem parse_hysteria2 (hunicode : unicode.KeepsNumerals)
    (hbuilt : item.record.configuration.Built unicode)
    (hprotocol : item.record.configuration.protocol = .hysteria2)
    (hfingerprint : item.record.configuration.securityOptions.fingerprint = [])
    (hresult : renderProtocol (commonOutbound item) item.record.configuration = .ok result) :
    parseSingBoxOutbound unicode order (Outbound.fields wire
      { result with tls := renderTLS item.record.configuration, transport := none })
      result.type = .ok ⟨reached item.record.configuration, wire.carry item.name⟩ := by
  set c := item.record.configuration with hc
  have h := hbuilt.normal hunicode
  have hreached := (reached_built hunicode hbuilt).normal hunicode
  obtain ⟨hkind, -, hflow, options, hoptions⟩ := h.options.hysteria hprotocol
  have hnormal := h.hysteria options hoptions
  have hcarried : Carried wire { result with tls := renderTLS c, transport := none } :=
    fun field hfield => carried_of_renderProtocol h hresult field hfield
  rw [renderProtocol, hprotocol] at hresult
  simp only [hoptions] at hresult
  obtain rfl := Except.ok.inj hresult
  change parseSingBoxOutbound unicode order _ (ascii "hysteria2") = _
  rw [parseSingBoxOutbound, if_pos rfl]
  set o : Outbound := { renderHysteria2 { commonOutbound item with
    type := ascii "hysteria2", password := c.credential.reveal
    network := [] } options with
    tls := renderTLS c, transport := none } with ho
  have hshaped := hnormal.shaped
  have hserverPort : o.serverPort = if options.portRanges.length ≠ 0 then 0 else
      c.address.port.val := rfl
  have hrecord := readHysteria2Record_fields hcarried (by
    rw [hserverPort]
    have := c.address.port.isLt
    split_ifs <;> omega) hshaped.upMbps hshaped.downMbps
  obtain ⟨-, -, hportValues, -, htlsValues, -⟩ := values_fields wire o
  obtain ⟨-, -, hobfsValues, hportsValues⟩ := values_hysteria2 wire o
  have hports : (o.fields wire).get? "server_ports" =
      if options.portRanges.map serverPortRange ≠ [] then
        some (.array ((options.portRanges.map serverPortRange).map (text wire))) else none := by
    have hsame : o.serverPorts = options.portRanges.map serverPortRange := rfl
    rw [get?, hportsValues, hsame]
    split_ifs <;> rfl
  obtain ⟨port, hport, haddress, hincludes⟩ := readHysteria2Port_render h hoptions
    (show (o.serverPort : Int) = _ by rw [hserverPort]; split_ifs <;> rfl) hports
  have hkeys : only hysteria2Keys (o.fields wire) = true := by
    have hnoflow : c.flow.string = [] := by rw [hflow]; rfl
    simp [ho, Outbound.fields, hysteria2Keys, commonOutbound, renderHysteria2, ← hc, hnoflow]
  have hone : ¬(((o.fields wire).get? "server_ports").isSome &&
      ((o.fields wire).get? "server_port").isSome) = true := by
    rw [hports, get?, hportValues, hserverPort]
    by_cases hempty : options.portRanges = []
    · simp [hempty]
    · simp [hempty]
  have hcredential : newHysteria2Credential c.credential.reveal = .ok c.credential := by
    have hrenew := h.credential.renew
    rw [Credential.renew, h.checked.credentialProtocol, hprotocol] at hrenew
    exact hrenew
  have htransport : c.transport = newQUICTransport := by
    have hrenew := h.transport.renew
    rw [Transport.renew, hkind] at hrenew
    exact (Except.ok.inj hrenew).symm
  have hnew : newExtendedConfiguration .hysteria2 (reached c).address
      c.credential newQUICTransport c.tls
      c.securityOptions .none (some options) = .ok (reached c) := by
    have hmethod := h.method_eq_nil (by rw [hprotocol]; decide) (by rw [hprotocol]; decide)
    have hsame := reached_eq c
    have hextended := newExtendedConfigurationWith_normal hreached (by
      rw [hsame]
      change c.protocol ≠ _
      rw [hprotocol]
      decide)
    rw [hsame] at hextended
    change newExtendedConfigurationWith c.protocol _
      c.credential c.transport
      c.tls c.securityOptions
      c.flow c.hysteria2
      c.method = _ at hextended
    rw [hprotocol, htransport, hflow, hoptions, hmethod] at hextended
    rw [hsame, hprotocol, htransport, hmethod]
    exact hextended
  rw [parseSingBoxHysteria2, if_neg (by simp [hkeys])]
  refine bind_eq_ok.mpr ⟨_, orFail_some hrecord _, ?_⟩
  rw [if_neg hone]
  refine bind_eq_ok.mpr ⟨port, hport, bind_eq_ok.mpr ⟨_, orElse_ok haddress _, ?_⟩⟩
  refine bind_eq_ok.mpr ⟨_, orElse_ok hcredential _, ?_⟩
  refine bind_eq_ok.mpr ⟨(c.tls, c.securityOptions), ?_, ?_⟩
  · rw [get?, htlsValues, getLast?_toList]
    exact readHysteria2TLS_render h hprotocol hfingerprint
  refine bind_eq_ok.mpr ⟨options.revealSalamanderPassword, ?_, ?_⟩
  · rw [get?, hobfsValues, getLast?_toList]
    exact readObfs_render hnormal
  refine bind_eq_ok.mpr ⟨options, readHysteria2Options_render hnormal rfl rfl hports, ?_⟩
  rw [if_neg (by simp [hincludes])]
  exact bind_eq_ok.mpr ⟨_, orElse_ok hnew _, rfl⟩

end Hysteria2

/-! ## The round trip -/

theorem renderOutbound_eq_ok :
    renderOutbound item = .ok o ↔
      checkEndpoint singBox1141 item.record.configuration = .ok () ∧
      ∃ result transport,
        renderProtocol (commonOutbound item) item.record.configuration = .ok result ∧
        renderTransport item.record.configuration.transport = .ok transport ∧
        o = { result with tls := renderTLS item.record.configuration, transport := transport } := by
  constructor
  · intro h
    obtain ⟨⟨⟩, hcheck, h⟩ := bind_eq_ok.mp h
    obtain ⟨result, hresult, h⟩ := bind_eq_ok.mp h
    obtain ⟨transport, htransport, h⟩ := bind_eq_ok.mp h
    exact ⟨hcheck, result, transport, hresult, htransport, (Except.ok.inj h).symm⟩
  · rintro ⟨hcheck, result, transport, hresult, htransport, rfl⟩
    exact bind_eq_ok.mpr ⟨(), hcheck, bind_eq_ok.mpr ⟨result, hresult,
      bind_eq_ok.mpr ⟨transport, htransport, rfl⟩⟩⟩

/-- Every protocol but the unknown one is rendered, with its own type. -/
theorem exists_renderProtocol (result : Outbound) (h : c.protocol ≠ .unknown) :
    ∃ rendered, renderProtocol result c = .ok rendered ∧ validUTF8 rendered.type = true := by
  unfold renderProtocol
  cases hp : c.protocol with
  | unknown => exact absurd hp h
  | vless | trojan | vmess | shadowsocks | socks5 | httpProxy =>
    exact ⟨_, rfl, by change validUTF8 (ascii _) = true; decide +kernel⟩
  | hysteria2 =>
    cases c.hysteria2 with
    | none | some options =>
      exact ⟨_, rfl, show validUTF8 (ascii "hysteria2") = true by decide +kernel⟩

/-- Every accepted transport is rendered; that of Hysteria2 has no fields. -/
theorem exists_renderTransport
    (h : c.protocol = .hysteria2 ∧ c.transport.kind = .quic ∨ AcceptedConnection singBox1141 c) :
    ∃ rendered, renderTransport c.transport = .ok rendered := by
  unfold renderTransport
  rcases h with ⟨-, hk⟩ | ⟨-, hdirect, -⟩ | ⟨-, -, -, -, htransport⟩
  · rw [hk]
    exact ⟨_, rfl⟩
  · rw [hdirect.2]
    exact ⟨_, rfl⟩
  · rcases htransport with hk | hk | ⟨hk | hk | hk | ⟨-, hprofile⟩, -, -⟩
    · rw [hk]
      exact ⟨_, rfl⟩
    · rw [hk]
      exact ⟨_, rfl⟩
    · rw [hk]
      exact ⟨_, rfl⟩
    · rw [hk]
      exact ⟨_, rfl⟩
    · rw [hk]
      exact ⟨_, rfl⟩
    · exact absurd rfl hprofile

/-- **Rendering for sing-box loses nothing.**  A constructed configuration is rendered exactly
if the capability gate accepts it.  The rendered object is then accepted by the parser, with
the configuration it was rendered from; only the port of a Hysteria2 endpoint with port ranges
is replaced by the first one of these. -/
theorem singBox_round_trip (hunicode : unicode.KeepsNumerals) (wire : JsonWire)
    (order : MapOrder) (item : NamedRecord)
    (hbuilt : item.record.configuration.Built unicode) :
    ((∃ o, renderOutbound item = .ok o) ↔
      checkEndpoint singBox1141 item.record.configuration = .ok ()) ∧
    ∀ o, renderOutbound item = .ok o →
      unmarshalRaw unmarshalString [] ((o.fields wire).get? "type") = some o.type ∧
      ∃ input, parseSingBoxOutbound unicode order (o.fields wire) o.type = .ok input ∧
        input.configuration.equivalent (reached item.record.configuration) = true := by
  set c := item.record.configuration
  have h := hbuilt.normal hunicode
  have hprotocol := h.consistent.protocol
  constructor
  · constructor
    · rintro ⟨o, ho⟩
      exact (renderOutbound_eq_ok.mp ho).1
    · intro hcheck
      obtain ⟨-, -, haccepted⟩ := checkEndpoint_iff.mp hcheck
      obtain ⟨result, hresult, -⟩ :=
        exists_renderProtocol (commonOutbound item) hprotocol
      obtain ⟨transport, htransport⟩ := exists_renderTransport (c := c) (by
        rcases haccepted with ⟨hp, -⟩ | ⟨-, haccepted⟩
        · exact .inl ⟨hp, (h.options.hysteria hp).1⟩
        · exact .inr haccepted)
      exact ⟨_, renderOutbound_eq_ok.mpr ⟨hcheck, result, transport, hresult, htransport, rfl⟩⟩
  · intro o ho
    obtain ⟨hcheck, result, transport, hresult, htransport, rfl⟩ := renderOutbound_eq_ok.mp ho
    obtain ⟨-, -, haccepted⟩ := checkEndpoint_iff.mp hcheck
    have hequivalent : (reached c).equivalent (reached c) = true := by
      have hshaped := (reached_built hunicode hbuilt).shaped
      exact (hshaped.equivalent_iff hshaped).mpr rfl
    constructor
    · obtain ⟨rendered, hrendered, htype⟩ :=
        exists_renderProtocol (commonOutbound item) hprotocol
      obtain rfl := Except.ok.inj (hresult.symm.trans hrendered)
      rw [get?, (values_fields wire _).1]
      exact congrArg some (wire.faithful _ htype)
    · rcases haccepted with ⟨hp, hfingerprint⟩ | ⟨hp, haccepted⟩
      · obtain rfl : none = transport := by
          rw [renderTransport, (h.options.hysteria hp).1] at htransport
          exact Except.ok.inj htransport
        exact ⟨_, parse_hysteria2 hunicode hbuilt hp hfingerprint hresult, hequivalent⟩
      · have hreached : reached c = c := by
          rw [reached, h.options.noHysteria hp]
        rw [hreached] at hequivalent ⊢
        exact ⟨_, parse_rendered h hp haccepted hresult htransport, hequivalent⟩

end Egressfox.Source

namespace Egressfox.Source.Sample

open Lib Engine Engine.SingBox Endpoint.Sample

/-- A wire that replaces what is no valid UTF-8 by nothing. -/
def wire : JsonWire where
  carry text := if validUTF8 text then text else []
  faithful _ h := if_pos h

/-- An endpoint with port ranges is rendered and read back, on the first port of the list. -/
theorem singBox_round_trip_ports :
    (∃ o, renderOutbound ⟨ascii "egressfox-old-001", record (ascii "old")⟩ = .ok o) ∧
    ∀ o, renderOutbound ⟨ascii "egressfox-old-001", record (ascii "old")⟩ = .ok o →
      ∃ input, parseSingBoxOutbound unicode .written (o.fields wire) o.type = .ok input ∧
        input.configuration.equivalent (reached (hysteria (ascii "old"))) = true := by
  obtain ⟨hiff, hparse⟩ := singBox_round_trip keepsNumerals wire .written
    ⟨ascii "egressfox-old-001", record (ascii "old")⟩ hysteria_old_built
  refine ⟨hiff.mpr ?_, fun o ho => (hparse o ho).2⟩
  decide +kernel

end Egressfox.Source.Sample
