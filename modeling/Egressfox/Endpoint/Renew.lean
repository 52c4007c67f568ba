import Egressfox.Endpoint.Normalized

/-!
# Constructed values go through their constructors unchanged

A renderer takes a configuration apart with the accessors of `internal/endpoint`, and a parser
puts one together with its constructors.  For every type of the package `renew` applies the
constructor that belongs to a value to what the accessors return on it, and `Built.normal`
states that this gives the value back.  `Configuration.Built.normal` collects this for the
parts of a configuration, together with what the checks of the constructors say about its
texts.
-/

namespace Egressfox.Endpoint

open Lib

/-! ## Accessors -/

/-- `TransportKind.String`. -/
def TransportKind.string : TransportKind → String
  | .tcp => "tcp"
  | .webSocket => "websocket"
  | .http2 => "http2"
  | .httpUpgrade => "httpupgrade"
  | .grpc => "grpc"
  | .quic => "quic"
  | .xhttp => "xhttp"
  | .unknown => "unknown"

/-- `Protocol.String`. -/
def Protocol.string : Protocol → String
  | .vless => "vless"
  | .trojan => "trojan"
  | .vmess => "vmess"
  | .shadowsocks => "shadowsocks"
  | .socks5 => "socks5"
  | .httpProxy => "http-proxy"
  | .hysteria2 => "hysteria2"
  | .unknown => "unknown"

/-- `VLESSFlow.String`. -/
def VLESSFlow.string : VLESSFlow → Bytes
  | .vision => ascii "xtls-rprx-vision"
  | .none | .other => []

/-- `Credential.Reveal`. -/
def Credential.reveal (c : Credential) : Bytes := c.secret.getD []

/-- `Configuration.Flow`. -/
def Configuration.flow (c : Configuration) : VLESSFlow := (c.advanced.map (·.flow)).getD .none

/-- `Configuration.SecurityOptions`. -/
def Configuration.securityOptions (c : Configuration) : SecurityOptions :=
  (c.advanced.map (·.security)).getD {}

/-- `Configuration.Hysteria2`. -/
def Configuration.hysteria2 (c : Configuration) : Option Hysteria2Options :=
  c.advanced.bind (·.hysteria)

/-- `strconv.Atoi` where the error is dropped.  Of a text that is out of range `Atoi` returns the
nearest `int` besides the error; the ranges of valid options hold no such text. -/
def atoiOrZero (text : Bytes) : Int := (atoi text).getD 0

/-- The first and the last port of an entry of the port list. -/
def portRange (entry : Bytes) : Int × Int :=
  let parts := entry.splitOn 58
  let first := atoiOrZero (parts.headD [])
  (first, if parts.length = 2 then atoiOrZero (parts.getD 1 []) else first)

/-- `Hysteria2Options.IncludesPort`. -/
def Hysteria2Options.includesPort (h : Hysteria2Options) (port : Fin 65536) : Bool :=
  h.portRanges.length = 0 || h.portRanges.any fun entry =>
    (portRange entry).1 ≤ port.val && port.val ≤ (portRange entry).2

theorem portRange_portRangeText {first last : Int} (hfirst : 0 ≤ first) (hle : first ≤ last)
    (hlast : last ≤ 65535) : portRange (portRangeText first last) = (first, last) := by
  have hcolon : ascii ":" = [58] := by decide
  have hatoi : ∀ port : Int, 0 ≤ port → port ≤ 65535 → atoiOrZero (itoa port) = port := by
    intro port hlow hhigh
    rw [atoiOrZero, atoi_itoa hlow (by omega), Option.getD_some]
  unfold portRangeText
  split_ifs with hsame
  · rw [portRange, splitOn_itoa hfirst]
    simp [hatoi first hfirst (by omega), hsame]
  · rw [hcolon, List.append_assoc, List.singleton_append, portRange,
      splitOn_range hfirst (by omega)]
    simp [hatoi first hfirst (by omega), hatoi last (by omega) hlast]

/-! ## Credentials -/

/-- The constructor of a credential, applied to its own contents. -/
def Credential.renew (c : Credential) : Except Error Credential :=
  match c.protocol with
  | .vless => newVLESSCredential c.reveal
  | .trojan => newTrojanCredential c.reveal
  | .vmess => newVMessCredential c.reveal
  | .shadowsocks => newShadowsocksCredential c.reveal
  | .hysteria2 => newHysteria2Credential c.reveal
  | .socks5 | .httpProxy => newProxyCredential c.protocol c.username c.reveal
  | .unknown => .ok {}

/-- A credential that is its own renewal, with texts that are valid UTF-8. -/
structure Credential.Normal (c : Credential) : Prop where
  renew : c.renew = .ok c
  secret : validUTF8 c.reveal = true
  username : validUTF8 c.username = true

theorem newPasswordCredential_normal {protocol : Protocol} {field : String} {password : Bytes}
    {c : Credential} (h : newPasswordCredential protocol field password = .ok c) :
    newPasswordCredential protocol field c.reveal = .ok c ∧ c.protocol = protocol ∧
      validUTF8 c.reveal = true ∧ c.username = [] := by
  have hnew := h
  obtain ⟨hchecks, h⟩ := ite_invalid_eq_ok.mp h
  obtain rfl := Except.ok.inj h
  simp only [Bool.or_eq_true, Bool.not_eq_true', not_or, Bool.not_eq_false] at hchecks
  exact ⟨hnew, rfl, hchecks.2, rfl⟩

theorem Credential.Built.normal {c : Credential} (h : c.Built) : c.Normal := by
  cases h with
  | zero => exact ⟨rfl, rfl, rfl⟩
  | vless h | vmess h =>
    obtain ⟨canonical, huuid, h⟩ := bind_eq_ok.mp h
    obtain rfl := Except.ok.inj h
    exact ⟨bind_eq_ok.mpr ⟨canonical, canonicalUUID_canonical huuid, rfl⟩,
      validUTF8_canonicalUUID huuid, rfl⟩
  | trojan h =>
    have hnew := h
    simp only [newTrojanCredential, ite_invalid_eq_ok, Bool.not_eq_true', Bool.not_eq_false] at h
    obtain ⟨-, -, hutf8, h⟩ := h
    obtain rfl := Except.ok.inj h
    exact ⟨hnew, hutf8, rfl⟩
  | shadowsocks h | hysteria2 h =>
    obtain ⟨hnew, hprotocol, hsecret, husername⟩ := newPasswordCredential_normal h
    exact ⟨by rw [Credential.renew, hprotocol]; exact hnew, hsecret, by rw [husername]; rfl⟩
  | @proxy protocol username password c h =>
    have hnew := h
    obtain ⟨hprotocol, h⟩ := ite_invalid_eq_ok.mp h
    obtain ⟨hchecks, h⟩ := ite_invalid_eq_ok.mp h
    obtain ⟨-, h⟩ := ite_invalid_eq_ok.mp h
    obtain rfl := Except.ok.inj h
    simp only [Bool.or_eq_true, Bool.not_eq_true', not_or, Bool.not_eq_false] at hchecks
    obtain ⟨⟨⟨⟨-, husername⟩, hpassword⟩, -⟩, -⟩ := hchecks
    refine ⟨?_, hpassword, husername⟩
    simp only [Bool.and_eq_true, decide_eq_true_eq, not_and, not_not] at hprotocol
    by_cases hsocks : protocol = .socks5
    · subst hsocks
      exact hnew
    · obtain rfl := hprotocol hsocks
      exact hnew

/-! ## Transports -/

/-- The constructor of a transport, applied to its own contents. -/
def Transport.renew (unicode : Unicode) (t : Transport) : Except Error Transport :=
  match t.kind with
  | .tcp => .ok newTCPTransport
  | .webSocket => newWebSocketTransportWithHost unicode t.webSocketPathText t.webSocketHost
  | .http2 => newHTTP2Transport unicode t.path t.host
  | .httpUpgrade => newHTTPUpgradeTransport unicode t.path t.host
  | .grpc => newGRPCTransport t.service
  | .quic => .ok newQUICTransport
  | .xhttp => newXHTTPTransport unicode t.path t.host t.mode
  | .unknown => .ok {}

/-- A transport that is its own renewal, with texts that are valid UTF-8. -/
structure Transport.Normal (unicode : Unicode) (t : Transport) : Prop where
  renew : t.renew unicode = .ok t
  webSocketPath : validUTF8 t.webSocketPathText = true
  webSocketHost : validUTF8 t.webSocketHost = true
  path : validUTF8 t.path = true
  host : validUTF8 t.host = true
  service : validUTF8 t.service = true

section Transports

variable {unicode : Unicode} {t : Transport} {path host : Bytes}

/-- A normalised host is normalised to itself. -/
theorem newHTTPTransport_normal (hunicode : unicode.KeepsNumerals) {kind : TransportKind}
    (h : newHTTPTransport unicode kind path host = .ok t) :
    ∃ normalized, t = ⟨kind, none, [], some { path := path, host := normalized }⟩ ∧
      newHTTPTransport unicode kind path normalized = .ok t ∧ validUTF8 path = true ∧
      validUTF8 normalized = true := by
  obtain ⟨-, hpath, normalized, hhost, ht, hagain⟩ := newHTTPTransport_options h
  have hnormal := normal_of_normalizeOptionalHost hunicode hhost
  exact ⟨normalized, ht, hagain _ (normalizeOptionalHost_normal hnormal _), hpath,
    hnormal.validUTF8⟩

theorem Transport.Built.normal (hunicode : unicode.KeepsNumerals) (h : t.Built unicode) :
    t.Normal unicode := by
  cases h with
  | zero | tcp | quic => exact ⟨rfl, rfl, rfl, rfl, rfl, rfl⟩
  | webSocket h =>
    have hnew := h
    obtain ⟨rfl, -, hutf8⟩ := newWebSocketTransport_eq h
    refine ⟨bind_eq_ok.mpr ⟨_, hnew, ?_⟩, hutf8, rfl, rfl, rfl, rfl⟩
    exact bind_eq_ok.mpr ⟨[], normalizeOptionalHost_normal (.inl rfl) _, rfl⟩
  | webSocketWithHost h =>
    obtain ⟨t, ht, h⟩ := bind_eq_ok.mp h
    obtain ⟨normalized, hhost, h⟩ := bind_eq_ok.mp h
    have hnew := ht
    obtain ⟨rfl, -, hutf8⟩ := newWebSocketTransport_eq ht
    obtain rfl := Except.ok.inj h
    have hnormal := normal_of_normalizeOptionalHost hunicode hhost
    refine ⟨bind_eq_ok.mpr ⟨_, hnew, ?_⟩, hutf8, hnormal.validUTF8, rfl, rfl, rfl⟩
    exact bind_eq_ok.mpr ⟨normalized, normalizeOptionalHost_normal hnormal _, rfl⟩
  | http2 h | httpUpgrade h =>
    obtain ⟨normalized, rfl, hnew, hpath, hhost⟩ := newHTTPTransport_normal hunicode h
    exact ⟨hnew, rfl, rfl, hpath, hhost, rfl⟩
  | xhttp h =>
    obtain ⟨hmode, h⟩ := ite_invalid_eq_ok.mp h
    obtain ⟨t, ht, h⟩ := bind_eq_ok.mp h
    obtain ⟨normalized, rfl, hnew, hpath, hhost⟩ := newHTTPTransport_normal hunicode ht
    obtain rfl := Except.ok.inj h
    exact ⟨ite_invalid_eq_ok.mpr ⟨hmode, bind_eq_ok.mpr ⟨_, hnew, rfl⟩⟩, rfl, rfl, hpath, hhost,
      rfl⟩
  | grpc h =>
    have hnew := h
    obtain ⟨hchecks, h⟩ := ite_invalid_eq_ok.mp h
    obtain rfl := Except.ok.inj h
    simp only [Bool.or_eq_true, Bool.not_eq_true', not_or, Bool.not_eq_false] at hchecks
    exact ⟨hnew, rfl, rfl, rfl, rfl, hchecks.1.2⟩

end Transports

/-! ## TLS and security options -/

/-- Disabled TLS is the zero value, and a server name is in canonical form. -/
structure TLSConfig.Normal (tls : TLSConfig) : Prop where
  disabled : tls.enabled = false → tls = {}
  serverName : NormalOptionalHost tls.serverName

variable {unicode : Unicode} {tls : TLSConfig} {c : Configuration}

theorem Address.Built.normalOptional (hunicode : unicode.KeepsNumerals) {a : Address}
    (h : a.Built unicode) : NormalOptionalHost a.host := by
  cases h with
  | zero => exact .inl rfl
  | new h =>
    obtain ⟨⟨normalized, kind⟩, hhost, h⟩ := bind_eq_ok.mp h
    obtain ⟨-, h⟩ := ite_invalid_eq_ok.mp h
    obtain rfl := Except.ok.inj h
    exact .inr ⟨kind, normal_of_normalizeHost hunicode hhost⟩

theorem TLSConfig.Built.normal (hunicode : unicode.KeepsNumerals) (h : tls.Built unicode) :
    tls.Normal := by
  induction h with
  | disabled => exact ⟨fun _ => rfl, .inl rfl⟩
  | new h =>
    obtain ⟨normalized, hhost, h⟩ := bind_eq_ok.mp h
    obtain rfl := Except.ok.inj h
    exact ⟨by rintro ⟨⟩, normal_of_normalizeOptionalHost hunicode hhost⟩
  | resolved _ haddress ih =>
    unfold TLSConfig.resolve
    split
    · rename_i henabled
      simp only [Bool.and_eq_true] at henabled
      refine ⟨fun hdisabled => ?_, haddress.normalOptional hunicode⟩
      simp [henabled.1] at hdisabled
    · exact ih

/-- **The TLS part goes through `NewTLS` unchanged.** -/
theorem newTLS_normal (h : tls.Normal) (henabled : tls.enabled = true) :
    newTLS unicode tls.serverName tls.insecureSkipVerify = .ok tls := by
  refine bind_eq_ok.mpr ⟨tls.serverName, normalizeOptionalHost_normal h.serverName _, ?_⟩
  rw [← henabled]
  rfl

/-- A server name that is there is kept. -/
theorem TLSConfig.resolve_eq_self {address : Address} (h : tls.enabled = true → tls.serverName ≠ [])
    : tls.resolve address = tls := by
  rw [TLSConfig.resolve, if_neg]
  simp only [Bool.and_eq_true, decide_eq_true_eq, not_and]
  exact h

/-- Security options that are their own renewal, with texts that are valid UTF-8. -/
structure SecurityOptions.Normal (unicode : Unicode) (s : SecurityOptions) : Prop where
  renew : newSecurityOptions s.alpn s.fingerprint s.reality = .ok s
  alpn : ∀ value ∈ s.alpn, validUTF8 value = true
  fingerprint : validUTF8 s.fingerprint = true
  reality : ∀ r ∈ s.reality, r.Normal unicode

theorem SecurityOptions.Built.normal {s : SecurityOptions} (h : s.Built unicode) :
    s.Normal unicode := by
  cases h with
  | zero => exact ⟨rfl, by simp, rfl, by rintro r ⟨⟩⟩
  | @new alpn fingerprint reality s hreality h =>
    have hnew := h
    obtain ⟨-, h⟩ := ite_invalid_eq_ok.mp h
    obtain ⟨_, halpn, h⟩ := bind_eq_ok.mp h
    obtain ⟨hfingerprint, h⟩ := ite_invalid_eq_ok.mp h
    obtain ⟨hkey, h⟩ := ite_invalid_eq_ok.mp h
    obtain rfl := Except.ok.inj h
    refine ⟨hnew, fun value hvalue => (texts_of_checkALPN halpn value hvalue).2, ?_, ?_⟩
    · simp only [Bool.and_eq_true, decide_eq_true_eq, not_and, not_not] at hfingerprint
      by_cases hempty : fingerprint = []
      · rw [hempty]
        rfl
      · have hall : ∀ f ∈ fingerprints, validUTF8 f = true := by decide +kernel
        exact hall fingerprint (hfingerprint hempty)
    · intro r hr
      cases hreality r hr with
      | zero =>
        -- the constructor rejects the zero value
        refine absurd ?_ hkey
        rw [Option.any_eq_true]
        exact ⟨{}, hr, rfl⟩
      | new h => exact newReality_normal h

/-! ## Hysteria2 options -/

section

variable {h : Hysteria2Options}

/-- Hysteria2 options whose parts are their own renewal. -/
structure Hysteria2Options.Normal (h : Hysteria2Options) : Prop where
  shaped : h.Shaped
  renew : newHysteria2Options h.upMbps h.downMbps h.revealSalamanderPassword =
    .ok { h with portRanges := [] }
  obfsPassword : validUTF8 h.revealSalamanderPassword = true
  portRanges : h.portRanges = [] ∨
    ∃ ranges : List Bytes, ranges.length ≠ 0 ∧ ranges.length ≤ 16 ∧
      collectPorts 0 ranges = .ok h.portRanges

theorem newHysteria2Options_normal {upMbps downMbps : Int} {salamanderPassword : Bytes}
    (hnew : newHysteria2Options upMbps downMbps salamanderPassword = .ok h) :
    newHysteria2Options h.upMbps h.downMbps h.revealSalamanderPassword = .ok h ∧
      h.portRanges = [] ∧ validUTF8 h.revealSalamanderPassword = true := by
  obtain ⟨hbandwidth, hrest⟩ := ite_invalid_eq_ok.mp hnew
  obtain ⟨hobfs, hrest⟩ := ite_invalid_eq_ok.mp hrest
  have hpassword : h.revealSalamanderPassword = salamanderPassword := by
    rw [← Except.ok.inj hrest]
    unfold Hysteria2Options.revealSalamanderPassword
    by_cases hempty : salamanderPassword = []
    · simp [hempty]
    · simp [hempty]
  refine ⟨?_, ?_, ?_⟩
  · rw [hpassword, ← hnew, ← Except.ok.inj hrest]
  · rw [← Except.ok.inj hrest]
  · simp only [Bool.or_eq_true, Bool.not_eq_true', not_or, Bool.not_eq_false] at hobfs
    rw [hpassword]
    exact hobfs.2

theorem Hysteria2Options.Built.normal (hbuilt : h.Built) : h.Normal := by
  have hshaped := hbuilt.shaped
  cases hbuilt with
  | zero => exact ⟨hshaped, rfl, rfl, .inl rfl⟩
  | new hnew =>
    obtain ⟨hrenew, hports, hutf8⟩ := newHysteria2Options_normal hnew
    refine ⟨hshaped, ?_, hutf8, .inl hports⟩
    rw [hrenew, ← hports]
  | @withPorts _ _ _ ranges _ hnew =>
    obtain ⟨options, hoptions, hnew⟩ := bind_eq_ok.mp hnew
    obtain ⟨hcount, hnew⟩ := ite_invalid_eq_ok.mp hnew
    obtain ⟨portRanges, hranges, hnew⟩ := bind_eq_ok.mp hnew
    obtain rfl := Except.ok.inj hnew
    obtain ⟨hrenew, hports, hutf8⟩ := newHysteria2Options_normal hoptions
    simp only [Bool.or_eq_true, decide_eq_true_eq, not_or, not_lt] at hcount
    refine ⟨hshaped, ?_, hutf8, .inr ⟨ranges, hcount.1, hcount.2, hranges⟩⟩
    change newHysteria2Options options.upMbps options.downMbps
      options.revealSalamanderPassword = .ok { options with portRanges := [] }
    rw [hrenew, ← hports]

/-- Every port entry is the text of a range. -/
theorem Hysteria2Options.Normal.range (hnormal : h.Normal) :
    ∀ entry ∈ h.portRanges, ∃ first last : Int,
      1 ≤ first ∧ first ≤ last ∧ last ≤ 65535 ∧ entry = portRangeText first last := by
  rcases hnormal.portRanges with hnil | ⟨ranges, -, -, hcollect⟩
  · rw [hnil]
    simp
  · exact (texts_of_collectPorts hcollect).2

/-- **Hysteria2 options with ports go through their constructor unchanged**, also when the
entries are written in another way that parses as the same ranges. -/
theorem newHysteria2OptionsWithPorts_normal (hnormal : h.Normal) (hports : h.portRanges ≠ [])
    {write : Bytes → Bytes}
    (hwrite : ∀ first last : Int, 1 ≤ first → first ≤ last → last ≤ 65535 →
      parsePortRange (write (portRangeText first last)) = .ok (first, last)) :
    newHysteria2OptionsWithPorts h.upMbps h.downMbps h.revealSalamanderPassword
      (h.portRanges.map write) = .ok h := by
  rcases hnormal.portRanges with hnil | ⟨ranges, hpos, hcount, hcollect⟩
  · exact absurd hnil hports
  · refine bind_eq_ok.mpr ⟨_, hnormal.renew, ite_invalid_eq_ok.mpr ⟨?_, ?_⟩⟩
    · simp only [List.length_map, (texts_of_collectPorts hcollect).1, Bool.or_eq_true,
        decide_eq_true_eq, not_or, not_lt]
      exact ⟨hpos, hcount⟩
    · exact bind_eq_ok.mpr ⟨h.portRanges, collectPorts_collected hwrite hcollect, rfl⟩

end

/-! ## Configurations -/

/-- What the accessors return on a configuration. -/
structure Configuration.MadeOf (c : Configuration) (p : Protocol) (a : Address) (k : Credential)
    (t : Transport) (l : TLSConfig) (s : SecurityOptions) (f : VLESSFlow)
    (h : Option Hysteria2Options) (m : Bytes) : Prop where
  valid : c.valid = true
  protocol : c.protocol = p
  address : c.address = a
  credential : c.credential = k
  transport : c.transport = t
  tls : c.tls = l.resolve a
  security : c.securityOptions = s
  flow : c.flow = f
  hysteria : c.hysteria2 = h
  method : c.method = m

section MadeOf

variable {protocol : Protocol} {address : Address} {credential : Credential}
  {transport : Transport} {tls : TLSConfig} {method : Bytes} {c : Configuration}

theorem newConfiguration_madeOf
    (h : newConfiguration protocol address credential transport tls = .ok c) :
    c.MadeOf protocol address credential transport tls {} .none none [] := by
  simp only [newConfiguration, ite_invalid_eq_ok] at h
  obtain ⟨-, -, -, -, -, h⟩ := h
  obtain ⟨rfl, hvalid⟩ := validated_eq_ok h
  exact ⟨hvalid, rfl, rfl, rfl, rfl, rfl, rfl, rfl, rfl, rfl⟩

theorem newAdditionalConfiguration_madeOf
    (h : newAdditionalConfiguration protocol address credential transport tls method = .ok c) :
    c.MadeOf protocol address credential transport tls {} .none none method := by
  obtain ⟨-, h⟩ := ite_invalid_eq_ok.mp h
  obtain ⟨rfl, hvalid⟩ := validated_eq_ok h
  exact ⟨hvalid, rfl, rfl, rfl, rfl, rfl, rfl, rfl, rfl, rfl⟩

theorem newVMessConfiguration_madeOf
    (h : newVMessConfiguration address credential transport tls method = .ok c) :
    c.MadeOf .vmess address credential transport tls {} .none none method := by
  obtain ⟨-, h⟩ := ite_invalid_eq_ok.mp h
  exact newAdditionalConfiguration_madeOf h

theorem newShadowsocksConfiguration_madeOf
    (h : newShadowsocksConfiguration address credential method = .ok c) :
    c.MadeOf .shadowsocks address credential newTCPTransport disabledTLS {} .none none method := by
  obtain ⟨-, h⟩ := ite_invalid_eq_ok.mp h
  exact newAdditionalConfiguration_madeOf h

/-- An old connection has none of the options that the old constructors leave out. -/
theorem newExtendedConfiguration_madeOf {security : SecurityOptions} {flow : VLESSFlow}
    {hysteria : Option Hysteria2Options}
    (h : newExtendedConfiguration protocol address credential transport tls security flow
      hysteria = .ok c) :
    c.MadeOf protocol address credential transport tls security flow hysteria [] := by
  have hextended : extendedConfiguration protocol address credential transport tls security flow
      hysteria [] = .ok c →
        c.MadeOf protocol address credential transport tls security flow hysteria [] := by
    intro h
    obtain ⟨rfl, hvalid⟩ := validated_eq_ok h
    exact ⟨hvalid, rfl, rfl, rfl, rfl, rfl, rfl, rfl, rfl, rfl⟩
  obtain ⟨-, h⟩ := ite_invalid_eq_ok.mp h
  split at h
  · rename_i hold
    simp only [isOldConnection, Bool.and_eq_true, decide_eq_true_eq, List.length_eq_zero_iff]
      at hold
    obtain ⟨⟨⟨⟨⟨-, rfl⟩, rfl⟩, halpn⟩, hfingerprint⟩, hreality⟩ := hold
    obtain rfl : security = {} := by
      obtain ⟨alpn, fingerprint, reality⟩ := security
      subst halpn hfingerprint hreality
      rfl
    split at h
    · exact newConfiguration_madeOf h
    · exact newConfiguration_madeOf h
    · exact newVMessConfiguration_madeOf h
    · exact hextended h
  · exact hextended h

end MadeOf

/-- A valid configuration whose parts are their own renewals. -/
structure Configuration.Normal (unicode : Unicode) (c : Configuration) : Prop where
  valid : c.valid = true
  host : NormalHost c.address.host c.address.kind
  credential : c.credential.Normal
  transport : c.transport.Normal unicode
  tls : c.tls.Normal
  method : AdmittedMethod c.protocol c.method
  security : c.securityOptions.Normal unicode
  hysteria : ∀ h ∈ c.hysteria2, h.Normal
  advanced : ∀ a ∈ c.advanced,
    isOldConnection c.transport a.security a.flow a.hysteria = true →
      c.protocol ≠ .vless ∧ c.protocol ≠ .trojan ∧ c.protocol ≠ .vmess
  shadowsocks : c.protocol = .shadowsocks → c.advanced = none

/-- **Every constructed configuration consists of parts that are their own renewals.** -/
theorem Configuration.Built.normal (hunicode : unicode.KeepsNumerals) (h : c.Built unicode) :
    c.Normal unicode := by
  have hparts := h.parts
  refine ⟨hparts.valid,
    hparts.address.normal hunicode (Configuration.checked_of_valid hparts.valid).address,
    hparts.credential.normal, hparts.transport.normal hunicode, hparts.tls.normal hunicode,
    hparts.method, ?_, ?_, hparts.advanced, hparts.shadowsocks⟩
  · cases hadvanced : c.advanced with
    | none =>
      rw [Configuration.securityOptions, hadvanced]
      exact SecurityOptions.Built.zero.normal
    | some a =>
      rw [Configuration.securityOptions, hadvanced]
      exact (hparts.security a hadvanced).normal
  · intro h hh
    obtain ⟨a, ha, hh⟩ := Option.bind_eq_some_iff.mp hh
    exact (hparts.hysteria a ha h hh).normal

/-- The checks of `valid` that say which parts go together. -/
structure Configuration.Consistent (c : Configuration) : Prop where
  protocol : c.protocol ≠ .unknown
  tlsRequired : c.protocol = .trojan ∨ c.protocol = .hysteria2 → c.tls.enabled = true
  plain : c.protocol = .shadowsocks → c.transport.kind = .tcp ∧ c.tls.enabled = false
  method : c.protocol = .vmess ∨ c.protocol = .shadowsocks → c.method ≠ []
  serverName : c.tls.enabled = true → c.tls.serverName ≠ []

theorem Configuration.consistent_of_valid (h : c.valid = true) : c.Consistent := by
  unfold Configuration.valid at h
  split_ifs at h with hprotocol hfields htls hplain hmethod hadvanced
  simp only [Bool.and_eq_true, Bool.or_eq_true, Bool.not_eq_true', decide_eq_true_eq, not_and,
    not_or, Bool.not_eq_false, not_not] at htls hplain hmethod h
  refine ⟨hprotocol, htls, ?_, hmethod, ?_⟩
  · intro hshadowsocks
    obtain ⟨hkind, hdisabled⟩ := hplain hshadowsocks
    exact ⟨hkind, by simpa using hdisabled⟩
  · intro henabled
    rcases h with h | h
    · rw [henabled] at h
      cases h
    · exact h

/-- The checks of `advancedConnection.valid`, for a part that may be absent. -/
structure Configuration.OptionsConsistent (c : Configuration) : Prop where
  security : c.tls.enabled = false → c.securityOptions = {}
  reality : c.securityOptions.reality ≠ none → c.tls.insecureSkipVerify = false
  flow : c.flow ≠ .none → c.flow = .vision ∧ c.protocol = .vless
  proxy : c.protocol = .socks5 ∨ c.protocol = .httpProxy →
    c.transport.kind = .tcp ∧ c.securityOptions = {} ∧ c.flow = .none
  socks : c.protocol = .socks5 → c.tls.enabled = false
  hysteria : c.protocol = .hysteria2 → c.transport.kind = .quic ∧
    c.securityOptions.reality = none ∧ c.flow = .none ∧ ∃ h, c.hysteria2 = some h
  noHysteria : c.protocol ≠ .hysteria2 → c.hysteria2 = none

theorem AdvancedConnection.consistent_of_valid {a : AdvancedConnection}
    (hadvanced : c.advanced = some a) (h : a.valid c = true) : c.OptionsConsistent := by
  have hflow : c.flow = a.flow := by rw [Configuration.flow, hadvanced]; rfl
  have hsecurity : c.securityOptions = a.security := by
    rw [Configuration.securityOptions, hadvanced]; rfl
  have hhysteria : c.hysteria2 = a.hysteria := by rw [Configuration.hysteria2, hadvanced]; rfl
  have hempty : a.security.alpn.length = 0 → a.security.fingerprint = [] →
      a.security.reality = none → c.securityOptions = {} := by
    intro halpn hfingerprint hreality
    rw [hsecurity]
    generalize a.security = s at halpn hfingerprint hreality
    obtain ⟨alpn, fingerprint, reality⟩ := s
    obtain rfl := List.length_eq_zero_iff.mp halpn
    subst hfingerprint hreality
    rfl
  unfold AdvancedConnection.valid at h
  split_ifs at h with hvision htls hreality _ _ _ _ hproxy hhysteria2
  · -- the proxy protocols
    simp only [Bool.and_eq_true, Bool.or_eq_true, decide_eq_true_eq] at h hproxy
    obtain ⟨⟨⟨⟨⟨⟨hkind, hplain⟩, hnoflow⟩, hnone⟩, hnoreality⟩, hnofingerprint⟩, hnoalpn⟩ := h
    have hnothing := hempty hnoalpn hnofingerprint hnoreality
    refine ⟨fun _ => hnothing, fun hne => absurd (by rw [hsecurity]; exact hnoreality) hne,
      fun hne => absurd (hflow.trans hnoflow) hne, fun _ => ⟨hkind, hnothing, hflow.trans hnoflow⟩,
      ?_, ?_, fun _ => hhysteria.trans hnone⟩
    · intro hsocks
      rcases hplain with hhttp | hdisabled
      · rw [hsocks] at hhttp
        cases hhttp
      · simpa using hdisabled
    · intro hhysteria2
      rw [hhysteria2] at hproxy
      rcases hproxy with h | h <;> cases h
  all_goals
    simp only [Bool.and_eq_true, Bool.or_eq_true, decide_eq_true_eq, Bool.not_eq_true', not_and,
      not_or, Bool.not_eq_false, not_not, ne_eq] at h hvision htls hreality hproxy
    have hsecure : c.tls.enabled = false → c.securityOptions = {} := by
      intro hdisabled
      have hnone : ¬(0 < a.security.alpn.length ∨ ¬a.security.fingerprint = []) ∧
          a.security.reality = none := by
        constructor
        · intro hsome
          rw [htls (.inl hsome)] at hdisabled
          cases hdisabled
        · by_contra hsome
          rw [htls (.inr hsome)] at hdisabled
          cases hdisabled
      rw [not_or, not_lt, not_not] at hnone
      exact hempty (Nat.le_zero.mp hnone.1.1) hnone.1.2 hnone.2
    have hrealityTLS : c.securityOptions.reality ≠ none → c.tls.insecureSkipVerify = false := by
      rw [hsecurity]
      intro hne
      have hthree := (hreality hne).1.2
      simpa using hthree
    have hvless : c.flow ≠ .none → c.flow = .vision ∧ c.protocol = .vless := by
      rw [hflow]
      intro hne
      exact ⟨(hvision hne).1.1.1, (hvision hne).1.1.2⟩
  · -- Hysteria2
    obtain ⟨⟨⟨hkind, hsome⟩, hnoflow⟩, hnoreality⟩ := h
    refine ⟨hsecure, hrealityTLS, hvless, fun hp => (not_or.mpr hproxy hp).elim,
      fun hp => absurd hp hproxy.1, fun _ => ⟨hkind, ?_, hflow.trans hnoflow, ?_⟩,
      fun hne => absurd hhysteria2 hne⟩
    · rw [hsecurity]
      exact hnoreality
    · rw [hhysteria]
      exact Option.ne_none_iff_exists'.mp hsome
  · exact ⟨hsecure, hrealityTLS, hvless, fun hp => (not_or.mpr hproxy hp).elim,
      fun hp => absurd hp hproxy.1, fun hp => absurd hp hhysteria2,
      fun _ => hhysteria.trans h.1⟩

theorem Configuration.optionsConsistent_of_valid (h : c.valid = true) : c.OptionsConsistent := by
  have hvalid := (Configuration.checked_of_valid h).advanced
  cases hadvanced : c.advanced with
  | some a =>
    rw [Configuration.advancedValid, hadvanced] at hvalid
    exact AdvancedConnection.consistent_of_valid hadvanced hvalid
  | none =>
    simp only [Configuration.advancedValid, hadvanced, Bool.and_eq_true, decide_eq_true_eq,
      ne_eq] at hvalid
    obtain ⟨⟨⟨hsocks, hhttp⟩, hhysteria⟩, -⟩ := hvalid
    have hsecurity : c.securityOptions = {} := by
      rw [Configuration.securityOptions, hadvanced]; rfl
    have hflow : c.flow = .none := by rw [Configuration.flow, hadvanced]; rfl
    refine ⟨fun _ => hsecurity, ?_, fun hne => absurd hflow hne, ?_, fun hp => absurd hp hsocks,
      fun hp => absurd hp hhysteria, ?_⟩
    · rw [hsecurity]
      intro hne
      exact absurd rfl hne
    · rintro (hp | hp)
      · exact absurd hp hsocks
      · exact absurd hp hhttp
    · intro _
      rw [Configuration.hysteria2, hadvanced]
      rfl

theorem validated_of_valid {problem : String} (h : c.valid = true) :
    validated c problem = .ok c := by
  rw [validated, if_pos h]

section Renewal

variable (h : c.Normal unicode)
include h

theorem Configuration.Normal.checked : c.Checked :=
  Configuration.checked_of_valid h.valid

theorem Configuration.Normal.consistent : c.Consistent :=
  Configuration.consistent_of_valid h.valid

theorem Configuration.Normal.options : c.OptionsConsistent :=
  Configuration.optionsConsistent_of_valid h.valid

theorem Configuration.Normal.resolve (address : Address) : c.tls.resolve address = c.tls :=
  TLSConfig.resolve_eq_self h.consistent.serverName

/-- Only VMess and Shadowsocks have a method. -/
theorem Configuration.Normal.method_eq_nil (hvmess : c.protocol ≠ .vmess)
    (hshadowsocks : c.protocol ≠ .shadowsocks) : c.method = [] := by
  rcases h.method with hnil | ⟨hp, -⟩ | ⟨hp, -⟩
  · exact hnil
  · exact absurd hp hvmess
  · exact absurd hp hshadowsocks

/-- The checks at the head of the general constructors. -/
theorem Configuration.Normal.fields :
    ¬(!c.address.valid || !c.credential.valid || decide (c.credential.protocol ≠ c.protocol) ||
      !c.transport.valid) = true := by
  have hchecked := h.checked
  simp [hchecked.address, hchecked.credential, hchecked.credentialProtocol, hchecked.transport]

theorem newConfiguration_normal (hadvanced : c.advanced = none) (hmethod : c.method = [])
    (hprotocol : c.protocol = .vless ∨ c.protocol = .trojan) :
    newConfiguration c.protocol c.address c.credential c.transport c.tls = .ok c := by
  have hchecked := h.checked
  have hfirst : ¬(decide (c.protocol ≠ .vless) && decide (c.protocol ≠ .trojan)) = true := by
    rcases hprotocol with hp | hp <;> simp [hp]
  have htls : ¬(decide (c.protocol = .trojan) && !c.tls.enabled) = true := by
    simp only [Bool.and_eq_true, decide_eq_true_eq, Bool.not_eq_true', not_and, Bool.not_eq_false]
    exact fun hp => h.consistent.tlsRequired (.inl hp)
  simp only [newConfiguration, ite_invalid_eq_ok]
  refine ⟨hfirst, by simp [hchecked.address], ?_, by simp [hchecked.transport], htls, ?_⟩
  · simp [hchecked.credential, hchecked.credentialProtocol]
  · rw [h.resolve]
    obtain ⟨protocol, address, credential, transport, tls, method, advanced⟩ := c
    subst hadvanced hmethod
    exact validated_of_valid h.valid

theorem newAdditionalConfiguration_normal (hadvanced : c.advanced = none) :
    newAdditionalConfiguration c.protocol c.address c.credential c.transport c.tls c.method =
      .ok c := by
  refine ite_invalid_eq_ok.mpr ⟨h.fields, ?_⟩
  rw [h.resolve]
  obtain ⟨protocol, address, credential, transport, tls, method, advanced⟩ := c
  subst hadvanced
  exact validated_of_valid h.valid

theorem newVMessConfiguration_normal (hadvanced : c.advanced = none)
    (hprotocol : c.protocol = .vmess) :
    newVMessConfiguration c.address c.credential c.transport c.tls c.method = .ok c := by
  have hmethod : c.method ∈ vmessMethods := by
    rcases h.method with hnil | ⟨-, hmem⟩ | ⟨hss, -⟩
    · exact absurd hnil (h.consistent.method (.inl hprotocol))
    · exact hmem
    · rw [hprotocol] at hss
      cases hss
  refine ite_invalid_eq_ok.mpr ⟨not_not.mpr hmethod, ?_⟩
  rw [← hprotocol]
  exact newAdditionalConfiguration_normal h hadvanced

theorem newShadowsocksConfiguration_normal (hprotocol : c.protocol = .shadowsocks) :
    newShadowsocksConfiguration c.address c.credential c.method = .ok c := by
  have hmethod : c.method ∈ shadowsocksMethods := by
    rcases h.method with hnil | ⟨hvmess, -⟩ | ⟨-, hmem⟩
    · exact absurd hnil (h.consistent.method (.inr hprotocol))
    · rw [hprotocol] at hvmess
      cases hvmess
    · exact hmem
  obtain ⟨hkind, hdisabled⟩ := h.consistent.plain hprotocol
  have htransport : c.transport = newTCPTransport := by
    have hrenew := h.transport.renew
    rw [Transport.renew, hkind] at hrenew
    exact (Except.ok.inj hrenew).symm
  refine ite_invalid_eq_ok.mpr ⟨not_not.mpr hmethod, ?_⟩
  rw [← hprotocol, ← htransport, disabledTLS, ← h.tls.disabled hdisabled]
  exact newAdditionalConfiguration_normal h (h.shadowsocks hprotocol)

/-- Without an advanced part the connection is an old one. -/
theorem Configuration.Normal.isOld_of_none (hadvanced : c.advanced = none) :
    isOldConnection c.transport c.securityOptions c.flow c.hysteria2 = true := by
  have htransport := (h.checked.of_advanced_none hadvanced).1
  simp [isOldConnection, Configuration.securityOptions, Configuration.flow,
    Configuration.hysteria2, hadvanced, htransport]

/-- **A constructed configuration goes through `newExtendedConfiguration` unchanged**, except
for Shadowsocks, which has a constructor of its own. -/
theorem newExtendedConfigurationWith_normal (hprotocol : c.protocol ≠ .shadowsocks) :
    newExtendedConfigurationWith c.protocol c.address c.credential c.transport c.tls
      c.securityOptions c.flow c.hysteria2 c.method = .ok c := by
  refine ite_invalid_eq_ok.mpr ⟨h.fields, ?_⟩
  have hmethod : c.protocol ≠ .vmess → c.method = [] := fun hvmess =>
    h.method_eq_nil hvmess hprotocol
  cases hadvanced : c.advanced with
  | none =>
    rw [if_pos (h.isOld_of_none hadvanced)]
    have hvalid := h.checked.advanced
    simp only [Configuration.advancedValid, hadvanced, Bool.and_eq_true, decide_eq_true_eq,
      ne_eq] at hvalid
    obtain ⟨⟨⟨hsocks, hhttp⟩, hhysteria⟩, -⟩ := hvalid
    cases hp : c.protocol with
    | unknown => exact absurd hp h.consistent.protocol
    | shadowsocks => exact absurd hp hprotocol
    | socks5 => exact absurd hp hsocks
    | httpProxy => exact absurd hp hhttp
    | hysteria2 => exact absurd hp hhysteria
    | vless =>
      have hnew := newConfiguration_normal h hadvanced (hmethod (by rw [hp]; decide)) (.inl hp)
      rwa [hp] at hnew
    | trojan =>
      have hnew := newConfiguration_normal h hadvanced (hmethod (by rw [hp]; decide)) (.inr hp)
      rwa [hp] at hnew
    | vmess => exact newVMessConfiguration_normal h hadvanced hp
  | some a =>
    have hextended : extendedConfiguration c.protocol c.address c.credential c.transport c.tls
        c.securityOptions c.flow c.hysteria2 c.method = .ok c := by
      have hsame : c.advanced = some ⟨c.flow, c.securityOptions, c.hysteria2⟩ := by
        rw [Configuration.flow, Configuration.securityOptions, Configuration.hysteria2, hadvanced]
        rfl
      unfold extendedConfiguration
      rw [h.resolve, ← hsame]
      exact validated_of_valid h.valid
    split
    · rename_i hold
      have hnot := h.advanced a hadvanced (by
        rw [Configuration.flow, Configuration.securityOptions, Configuration.hysteria2,
          hadvanced] at hold
        exact hold)
      obtain ⟨hvless, htrojan, hvmess⟩ := hnot
      split
      · exact absurd ‹_› hvless
      · exact absurd ‹_› htrojan
      · exact absurd ‹_› hvmess
      · exact hextended
    · exact hextended

/-- **A constructed configuration is determined by its parts.** -/
theorem Configuration.Normal.eq_of_parts {c' : Configuration} (h' : c'.Normal unicode)
    (hprotocol : c.protocol = c'.protocol) (haddress : c.address = c'.address)
    (hcredential : c.credential = c'.credential) (htransport : c.transport = c'.transport)
    (htls : c.tls = c'.tls) (hsecurity : c.securityOptions = c'.securityOptions)
    (hflow : c.flow = c'.flow) (hhysteria : c.hysteria2 = c'.hysteria2)
    (hmethod : c.method = c'.method) : c = c' := by
  by_cases hp : c.protocol = .shadowsocks
  · have hnew := newShadowsocksConfiguration_normal h hp
    have hnew' := newShadowsocksConfiguration_normal h' (hprotocol ▸ hp)
    rw [haddress, hcredential, hmethod, hnew'] at hnew
    exact (Except.ok.inj hnew).symm
  · have hnew := newExtendedConfigurationWith_normal h hp
    have hnew' := newExtendedConfigurationWith_normal h' (hprotocol ▸ hp)
    rw [hprotocol, haddress, hcredential, htransport, htls, hsecurity, hflow, hhysteria, hmethod,
      hnew'] at hnew
    exact (Except.ok.inj hnew).symm

end Renewal

end Egressfox.Endpoint
