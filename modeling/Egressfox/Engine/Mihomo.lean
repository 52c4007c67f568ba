import Egressfox.Engine.Capability

/-!
# Rendering a proxy for Mihomo

`renderProxy` of `internal/engine/mihomo/render.go`.

Several fields of a configuration share a field of the proxy: HTTP upgrade is written as a
WebSocket with a flag, the server name stands in `servername` or in `sni`, ports and bandwidths
are written as text.  `Reading` lists for every part of an accepted configuration where in the
proxy it is found (`reading_of_renderProxy`), and two configurations with readings in one proxy
are equal (`Reading.eq`), because each part is the one its constructor makes of the texts that
were read.
-/

namespace Egressfox.Engine.Mihomo

open Lib Endpoint
open Artifact (Profile mihomo11931 singBox1141)

/-- `realityOpts`. -/
structure RealityOpts where
  publicKey : Bytes
  shortID : Bytes
deriving DecidableEq, Repr

/-- `webSocketOpts`. -/
structure WebSocketOpts where
  path : Bytes
  headers : List (String × Bytes) := []
  httpUpgrade : Bool := false
deriving DecidableEq, Repr

/-- `http2Opts`. -/
structure HTTP2Opts where
  host : List Bytes := []
  path : Bytes
deriving DecidableEq, Repr

/-- `grpcOpts`. -/
structure GRPCOpts where
  serviceName : Bytes
deriving DecidableEq, Repr

/-- `xhttpOpts`. -/
structure XHTTPOpts where
  path : Bytes
  host : Bytes
  mode : Bytes
deriving DecidableEq, Repr

/-- `proxy`. -/
structure Proxy where
  name : Bytes := []
  type : Bytes := []
  server : Bytes := []
  port : Nat := 0
  uuid : Bytes := []
  password : Bytes := []
  username : Bytes := []
  cipher : Bytes := []
  alterID : Option Int := none
  tls : Bool := false
  serverName : Bytes := []
  sni : Bytes := []
  skipCertVerify : Bool := false
  network : Bytes := []
  webSocket : Option WebSocketOpts := none
  http2 : Option HTTP2Opts := none
  grpc : Option GRPCOpts := none
  xhttp : Option XHTTPOpts := none
  flow : Bytes := []
  alpn : List Bytes := []
  clientFingerprint : Bytes := []
  realityOpts : Option RealityOpts := none
  up : Bytes := []
  down : Bytes := []
  obfs : Bytes := []
  obfsPassword : Bytes := []
  ports : Bytes := []
deriving DecidableEq, Repr

/-! ## Rendering -/

/-- `strings.ReplaceAll` of a colon by a hyphen. -/
def hyphenRange (entry : Bytes) : Bytes := entry.map fun b => if b = 58 then 45 else b

/-- The port entries, joined by commas. -/
def joinPorts (ports : List Bytes) : Bytes := (ascii ",").intercalate (ports.map hyphenRange)

/-- The text `"%d Mbps"`. -/
def mbps (value : Int) : Bytes := itoa value ++ ascii " Mbps"

/-- The options of the case `ProtocolHysteria2`. -/
def renderHysteria2 (result : Proxy) (options : Hysteria2Options) : Proxy :=
  let secret := options.revealSalamanderPassword
  { result with
    ports := if options.portRanges.length ≠ 0 then joinPorts options.portRanges else []
    up := if options.upMbps ≠ 0 then mbps options.upMbps else []
    down := if options.upMbps ≠ 0 then mbps options.downMbps else []
    obfs := if secret ≠ [] then ascii "salamander" else []
    obfsPassword := if secret ≠ [] then secret else [] }

/-- The switch over the protocol. -/
def renderProtocol (result : Proxy) (c : Configuration) : Except CheckError Proxy :=
  match c.protocol with
  | .vless =>
    .ok { result with
      type := ascii "vless", uuid := c.credential.reveal
      serverName := if c.tls.enabled then c.tls.serverName else [] }
  | .trojan =>
    .ok { result with
      type := ascii "trojan", password := c.credential.reveal, sni := c.tls.serverName }
  | .vmess =>
    .ok { result with
      type := ascii "vmess", uuid := c.credential.reveal, cipher := c.method, alterID := some 0
      serverName := if c.tls.enabled then c.tls.serverName else [] }
  | .shadowsocks =>
    .ok { result with
      type := ascii "ss", cipher := c.method, password := c.credential.reveal }
  | .socks5 =>
    .ok { result with
      type := ascii "socks5", username := c.credential.username
      password := c.credential.reveal }
  | .httpProxy =>
    .ok { result with
      type := ascii "http", username := c.credential.username
      password := c.credential.reveal
      sni := if c.tls.enabled then c.tls.serverName else [] }
  | .hysteria2 =>
    let result := { result with
      type := ascii "hysteria2", password := c.credential.reveal, sni := c.tls.serverName
      network := [] }
    match c.hysteria2 with
    | some options => .ok (renderHysteria2 result options)
    | none => .ok result
  | .unknown => .error (.capability mihomo11931 "inventory.protocol" c.protocol.string)

/-- The header with the host, if there is one. -/
def hostHeaders (host : Bytes) : List (String × Bytes) := if host ≠ [] then [("Host", host)] else []

/-- The switch over the transport. -/
def renderTransport (result : Proxy) (t : Transport) : Except CheckError Proxy :=
  match t.kind with
  | .tcp | .quic => .ok result
  | .webSocket =>
    .ok { result with
      network := ascii "ws"
      webSocket := some { path := t.webSocketPathText, headers := hostHeaders t.webSocketHost } }
  | .http2 =>
    .ok { result with
      network := ascii "h2"
      http2 := some { path := t.path, host := if t.host ≠ [] then [t.host] else [] } }
  | .httpUpgrade =>
    .ok { result with
      network := ascii "ws"
      webSocket := some { path := t.path, httpUpgrade := true, headers := hostHeaders t.host } }
  | .grpc => .ok { result with network := ascii "grpc", grpc := some ⟨t.service⟩ }
  | .xhttp => .ok { result with network := ascii "xhttp", xhttp := some ⟨t.path, t.host, t.mode⟩ }
  | .unknown => .error (.capability mihomo11931 "inventory.transport" t.kind.string)

/-- The proxy before the switches. -/
def commonProxy (item : NamedRecord) : Proxy :=
  let c := item.record.configuration
  { name := item.name
    server := c.address.host
    port := c.address.port.val
    tls := c.tls.enabled
    skipCertVerify := c.tls.insecureSkipVerify
    network := ascii "tcp"
    flow := c.flow.string
    alpn := c.securityOptions.alpn
    clientFingerprint := c.securityOptions.fingerprint
    realityOpts := c.securityOptions.reality.map fun r => ⟨r.publicKey, r.shortID⟩ }

/-- `renderProxy`. -/
def renderProxy (item : NamedRecord) : Except CheckError Proxy := do
  let c := item.record.configuration
  checkEndpoint mihomo11931 c
  let result ← renderProtocol (commonProxy item) c
  renderTransport result c.transport

/-! ## What is rendered -/

variable {p : Proxy} {c : Configuration} {t : Transport}

theorem renderProxy_eq_ok {item : NamedRecord} :
    renderProxy item = .ok p ↔
      checkEndpoint mihomo11931 item.record.configuration = .ok () ∧
      ∃ result, renderProtocol (commonProxy item) item.record.configuration = .ok result ∧
        renderTransport result item.record.configuration.transport = .ok p := by
  constructor
  · intro h
    obtain ⟨⟨⟩, hcheck, h⟩ := bind_eq_ok.mp h
    obtain ⟨result, hresult, h⟩ := bind_eq_ok.mp h
    exact ⟨hcheck, result, hresult, h⟩
  · rintro ⟨hcheck, result, hresult, htransport⟩
    exact bind_eq_ok.mpr ⟨(), hcheck, bind_eq_ok.mpr ⟨result, hresult, htransport⟩⟩

theorem exists_renderProtocol (result : Proxy) (h : c.protocol ≠ .unknown) :
    ∃ rendered, renderProtocol result c = .ok rendered := by
  unfold renderProtocol
  cases hp : c.protocol with
  | unknown => exact absurd hp h
  | hysteria2 =>
    cases c.hysteria2 with
    | none | some options => exact ⟨_, rfl⟩
  | _ => exact ⟨_, rfl⟩

theorem exists_renderTransport (result : Proxy) (h : t.kind ≠ .unknown) :
    ∃ rendered, renderTransport result t = .ok rendered := by
  unfold renderTransport
  cases hk : t.kind with
  | unknown => exact absurd hk h
  | _ => exact ⟨_, rfl⟩

/-! ## Port lists -/

/-- The bytes of a port entry are digits and colons. -/
theorem mem_portRangeText {first last : Int} (hfirst : 0 ≤ first) (hlast : 0 ≤ last) {b : Byte}
    (hb : b ∈ portRangeText first last) : b.val ≤ 58 ∧ 48 ≤ b.val := by
  have hdigit : ∀ port : Int, 0 ≤ port → b ∈ itoa port → b.val ≤ 58 ∧ 48 ≤ b.val := by
    intro port hport hb
    have hrange := digit_of_mem_itoa hport hb
    omega
  unfold portRangeText at hb
  split_ifs at hb with hsame
  · exact hdigit first hfirst hb
  · rw [List.mem_append, List.mem_append] at hb
    rcases hb with (hb | hb) | hb
    · exact hdigit first hfirst hb
    · have hcolon : b = 58 := by simpa [ascii] using hb
      rw [hcolon]
      decide
    · exact hdigit last hlast hb

theorem portRangeText_ne_nil {first last : Int} (hfirst : 0 ≤ first) (hmax : first ≤ 65535) :
    portRangeText first last ≠ [] := by
  have hne : itoa first ≠ [] := by
    intro hnil
    have hatoi := atoi_itoa hfirst (by omega)
    rw [hnil] at hatoi
    cases hatoi
  unfold portRangeText
  split_ifs
  · exact hne
  · simp [hne]

/-- The entries are found in the text of the list. -/
def readPorts (text : Bytes) : List Bytes :=
  if text = [] then []
  else (text.splitOn 44).map fun entry => entry.map fun b => if b = 45 then 58 else b

/-- **The list of ports can be read off its text.** -/
theorem readPorts_joinPorts {ports : List Bytes}
    (h : ∀ entry ∈ ports, ∃ first last : Int,
      1 ≤ first ∧ first ≤ last ∧ last ≤ 65535 ∧ entry = portRangeText first last) :
    readPorts (joinPorts ports) = ports := by
  cases hports : ports with
  | nil => rfl
  | cons head tail =>
    have hbytes : ∀ entry ∈ ports, ∀ b ∈ entry, b.val ≤ 58 ∧ 48 ≤ b.val := by
      intro entry hentry b hb
      obtain ⟨first, last, hfirst, hle, -, rfl⟩ := h entry hentry
      exact mem_portRangeText (by omega) (by omega) hb
    have hcomma : ∀ entry ∈ ports.map hyphenRange, 44 ∉ entry := by
      intro entry hentry hmem
      obtain ⟨original, horiginal, rfl⟩ := List.mem_map.mp hentry
      obtain ⟨b, hb, hcomma⟩ := List.mem_map.mp hmem
      have hrange := hbytes original horiginal b hb
      split_ifs at hcomma
      · exact absurd hcomma (by decide)
      · rw [hcomma] at hrange
        exact absurd hrange.2 (by decide)
    have hback : ∀ entry ∈ ports,
        (hyphenRange entry).map (fun b => if b = 45 then 58 else b) = entry := by
      intro entry hentry
      rw [hyphenRange, List.map_map]
      conv_rhs => rw [← List.map_id entry]
      apply List.map_congr_left
      intro b hb
      have hrange := hbytes entry hentry b hb
      by_cases hcolon : b = 58
      · simp [hcolon]
      · have hhyphen : b ≠ 45 := by
          rintro rfl
          exact absurd hrange.2 (by decide)
        simp [hcolon, hhyphen]
    have hsplit : (joinPorts ports).splitOn 44 = ports.map hyphenRange := by
      rw [joinPorts, show ascii "," = [44] by decide]
      exact List.splitOn_intercalate 44 hcomma (by simp [hports])
    have hne : joinPorts ports ≠ [] := by
      intro hnil
      rw [hnil] at hsplit
      have hhead : ([] : Bytes) ∈ ports.map hyphenRange := by
        rw [← hsplit]
        simp
      obtain ⟨entry, hentry, hempty⟩ := List.mem_map.mp hhead
      obtain ⟨first, last, hfirst, hle, hlast, rfl⟩ := h entry hentry
      exact portRangeText_ne_nil (by omega) (by omega) (List.map_eq_nil_iff.mp hempty)
    rw [← hports, readPorts, if_neg hne, hsplit, List.map_map]
    conv_rhs => rw [← List.map_id ports]
    exact List.map_congr_left hback

theorem mbps_injective {i j : Int} (hi : 0 ≤ i ∧ i ≤ 100000) (hj : 0 ≤ j ∧ j ≤ 100000)
    (h : mbps i = mbps j) : i = j := by
  have htext := List.append_cancel_right h
  have hvalue := atoi_itoa hi.1 (by omega)
  rw [htext, atoi_itoa hj.1 (by omega)] at hvalue
  exact (Option.some.inj hvalue).symm

/-! ## Reading the transport -/

/-- The options of the transport agree. -/
def SameOpts (p p' : Proxy) : Prop :=
  p.webSocket = p'.webSocket ∧ p.http2 = p'.http2 ∧ p.grpc = p'.grpc ∧ p.xhttp = p'.xhttp

/-- The kind of transport the options are for. -/
def readKind (p : Proxy) : TransportKind :=
  match p.webSocket, p.http2, p.grpc, p.xhttp with
  | some ws, _, _, _ => if ws.httpUpgrade then .httpUpgrade else .webSocket
  | none, some _, _, _ => .http2
  | none, none, some _, _ => .grpc
  | none, none, none, some _ => .xhttp
  | none, none, none, none => .tcp

theorem SameOpts.readKind_eq {p' : Proxy} (h : SameOpts p p') : readKind p = readKind p' := by
  obtain ⟨hws, hh2, hgrpc, hxhttp⟩ := h
  rw [readKind, readKind, hws, hh2, hgrpc, hxhttp]

/-- The kind can be read off the options, except that TCP and QUIC have none. -/
theorem kind_eq_readKind (h : renderTransport {} t = .ok p) (hquic : t.kind ≠ .quic) :
    t.kind = readKind p := by
  unfold renderTransport at h
  cases hk : t.kind with
  | unknown =>
    rw [hk] at h
    cases h
  | quic => exact absurd hk hquic
  | _ =>
    rw [hk] at h
    rw [← Except.ok.inj h]
    rfl

/-- An entry that is left out for the empty text tells the text. -/
theorem optional_injective {α : Type} {entry : Bytes → α} (h : Function.Injective entry) :
    Function.Injective fun host : Bytes => if host ≠ [] then [entry host] else [] := by
  intro host host' hsame
  by_cases hempty : host = []
  · by_cases hempty' : host' = []
    · rw [hempty, hempty']
    · simp [hempty, hempty'] at hsame
  · by_cases hempty' : host' = []
    · simp [hempty, hempty'] at hsame
    · exact h (by simpa [hempty, hempty'] using hsame)

/-- **The transport can be read off its options**, once QUIC is told apart. -/
theorem transport_eq {unicode : Unicode} {t' : Transport} {p' : Proxy} (hn : t.Normal unicode)
    (hn' : t'.Normal unicode) (hquic : t.kind = .quic ↔ t'.kind = .quic)
    (h : renderTransport {} t = .ok p) (h' : renderTransport {} t' = .ok p') (hsame : SameOpts p p')
    : t = t' := by
  have hkind : t.kind = t'.kind := by
    by_cases hq : t.kind = .quic
    · rw [hq, hquic.mp hq]
    · rw [kind_eq_readKind h hq, kind_eq_readKind h' (mt hquic.mpr hq), hsame.readKind_eq]
  obtain ⟨hws, hh2, hgrpc, hxhttp⟩ := hsame
  have hrenew := hn.renew
  have hrenew' := hn'.renew
  unfold Transport.renew at hrenew hrenew'
  unfold renderTransport at h h'
  rw [← hkind] at hrenew' h'
  cases hk : t.kind with
  | unknown =>
    rw [hk] at h
    cases h
  | tcp | quic =>
    rw [hk] at hrenew hrenew'
    exact Except.ok.inj (hrenew.symm.trans hrenew')
  | webSocket | httpUpgrade =>
    rw [hk] at hrenew hrenew' h h'
    rw [← Except.ok.inj h, ← Except.ok.inj h'] at hws
    simp only [Option.some.injEq, WebSocketOpts.mk.injEq, and_true] at hws
    rw [hws.1, optional_injective (Prod.mk_right_injective _) hws.2] at hrenew
    exact Except.ok.inj (hrenew.symm.trans hrenew')
  | http2 =>
    rw [hk] at hrenew hrenew' h h'
    rw [← Except.ok.inj h, ← Except.ok.inj h'] at hh2
    simp only [Option.some.injEq, HTTP2Opts.mk.injEq] at hh2
    rw [hh2.2, optional_injective Function.injective_id hh2.1] at hrenew
    exact Except.ok.inj (hrenew.symm.trans hrenew')
  | grpc =>
    rw [hk] at hrenew hrenew' h h'
    rw [← Except.ok.inj h, ← Except.ok.inj h'] at hgrpc
    simp only [Option.some.injEq, GRPCOpts.mk.injEq] at hgrpc
    rw [hgrpc] at hrenew
    exact Except.ok.inj (hrenew.symm.trans hrenew')
  | xhttp =>
    rw [hk] at hrenew hrenew' h h'
    rw [← Except.ok.inj h, ← Except.ok.inj h'] at hxhttp
    simp only [Option.some.injEq, XHTTPOpts.mk.injEq] at hxhttp
    rw [hxhttp.1, hxhttp.2.1, hxhttp.2.2] at hrenew
    exact Except.ok.inj (hrenew.symm.trans hrenew')

/-! ## Reading the configuration -/

/-- The type of proxy of a protocol. -/
def typeName : Protocol → Bytes
  | .vless => ascii "vless"
  | .trojan => ascii "trojan"
  | .vmess => ascii "vmess"
  | .shadowsocks => ascii "ss"
  | .socks5 => ascii "socks5"
  | .httpProxy => ascii "http"
  | .hysteria2 => ascii "hysteria2"
  | .unknown => []

theorem typeName_injective : Function.Injective typeName := by
  intro p q h
  cases p <;> cases q <;> first | rfl | exact absurd h (by decide)

/-- The protocols whose secret is a UUID. -/
def usesUUID (protocol : Protocol) : Bool := protocol = .vless || protocol = .vmess

/-- Where the parts of a configuration stand in a proxy. -/
structure Reading (c : Configuration) (p : Proxy) : Prop where
  type : typeName c.protocol = p.type
  host : c.address.host = p.server
  port : c.address.port.val = p.port
  enabled : c.tls.enabled = p.tls
  insecure : c.tls.insecureSkipVerify = p.skipCertVerify
  serverName : c.tls.enabled = true →
    c.tls.serverName = if usesUUID c.protocol then p.serverName else p.sni
  flow : c.flow.string = p.flow
  alpn : c.securityOptions.alpn = p.alpn
  fingerprint : c.securityOptions.fingerprint = p.clientFingerprint
  reality : c.securityOptions.reality = p.realityOpts.map fun r => ⟨r.publicKey, r.shortID⟩
  secret : c.credential.reveal = if usesUUID c.protocol then p.uuid else p.password
  username : c.protocol = .socks5 ∨ c.protocol = .httpProxy → c.credential.username = p.username
  method : c.protocol = .vmess ∨ c.protocol = .shadowsocks → c.method = p.cipher
  hysteria : ∀ options ∈ c.hysteria2, options.portRanges = readPorts p.ports ∧
    p.up = (if options.upMbps ≠ 0 then mbps options.upMbps else []) ∧
    p.down = (if options.upMbps ≠ 0 then mbps options.downMbps else []) ∧
    options.revealSalamanderPassword = p.obfsPassword
  transport : ∃ q, renderTransport {} c.transport = .ok q ∧ SameOpts q p

/-- The transport sets its own fields only, as it does in an empty proxy. -/
theorem renderTransport_frame {result : Proxy} (h : renderTransport result t = .ok p)
    (hempty : SameOpts {} result) :
    (∃ network ws h2 grpc xhttp,
      p = { result with
        network := network, webSocket := ws, http2 := h2, grpc := grpc, xhttp := xhttp }) ∧
    ∃ q, renderTransport {} t = .ok q ∧ SameOpts q p := by
  obtain ⟨hws, hh2, hgrpc, hxhttp⟩ := hempty
  unfold renderTransport at h ⊢
  cases hk : t.kind with
  | unknown =>
    rw [hk] at h
    cases h
  | tcp | quic =>
    rw [hk] at h
    obtain rfl := Except.ok.inj h
    exact ⟨⟨_, _, _, _, _, rfl⟩, _, rfl, hws, hh2, hgrpc, hxhttp⟩
  | webSocket | httpUpgrade =>
    rw [hk] at h
    obtain rfl := Except.ok.inj h
    exact ⟨⟨_, _, _, _, _, rfl⟩, _, rfl, rfl, hh2, hgrpc, hxhttp⟩
  | http2 =>
    rw [hk] at h
    obtain rfl := Except.ok.inj h
    exact ⟨⟨_, _, _, _, _, rfl⟩, _, rfl, hws, rfl, hgrpc, hxhttp⟩
  | grpc =>
    rw [hk] at h
    obtain rfl := Except.ok.inj h
    exact ⟨⟨_, _, _, _, _, rfl⟩, _, rfl, hws, hh2, rfl, hxhttp⟩
  | xhttp =>
    rw [hk] at h
    obtain rfl := Except.ok.inj h
    exact ⟨⟨_, _, _, _, _, rfl⟩, _, rfl, hws, hh2, hgrpc, rfl⟩

/-- The protocol sets none of the options of the transport. -/
theorem renderProtocol_opts {result q : Proxy} (h : renderProtocol result c = .ok q) :
    SameOpts result q := by
  unfold renderProtocol at h
  cases hp : c.protocol with
  | unknown =>
    rw [hp] at h
    cases h
  | hysteria2 =>
    rw [hp] at h
    cases hoptions : c.hysteria2 with
    | none | some options =>
      rw [hoptions] at h
      rw [← Except.ok.inj h]
      exact ⟨rfl, rfl, rfl, rfl⟩
  | _ =>
    rw [hp] at h
    rw [← Except.ok.inj h]
    exact ⟨rfl, rfl, rfl, rfl⟩

section Accepted

variable {unicode : Unicode} {item : NamedRecord} {p : Proxy}

/-- **Every part of a rendered configuration stands in the proxy.** -/
theorem reading_of_renderProxy (h : item.record.configuration.Normal unicode)
    (hrender : renderProxy item = .ok p) : Reading item.record.configuration p := by
  obtain ⟨-, result, hresult, htransport⟩ := renderProxy_eq_ok.mp hrender
  have hempty : SameOpts (commonProxy item) result := renderProtocol_opts hresult
  obtain ⟨⟨network, ws, h2, grpc, xhttp, rfl⟩, hopts⟩ := renderTransport_frame htransport hempty
  have hreality : ∀ reality : Option Reality, reality =
      (reality.map fun r => RealityOpts.mk r.publicKey r.shortID).map
        fun r => ⟨r.publicKey, r.shortID⟩ := by
    intro reality
    cases reality <;> rfl
  have hnone := h.options.noHysteria
  unfold renderProtocol at hresult
  cases hp : item.record.configuration.protocol with
  | unknown => exact absurd hp h.consistent.protocol
  | vless =>
    rw [hp] at hresult hnone
    obtain rfl := Except.ok.inj hresult
    exact ⟨by rw [hp]; rfl, rfl, rfl, rfl, rfl,
      fun henabled => by simp [hp, usesUUID, henabled], rfl, rfl, rfl, hreality _,
      by simp [hp, usesUUID], by simp [hp], by simp [hp], by simp [hnone], hopts⟩
  | vmess =>
    rw [hp] at hresult hnone
    obtain rfl := Except.ok.inj hresult
    exact ⟨by rw [hp]; rfl, rfl, rfl, rfl, rfl,
      fun henabled => by simp [hp, usesUUID, henabled], rfl, rfl, rfl, hreality _,
      by simp [hp, usesUUID], by simp [hp], fun _ => rfl, by simp [hnone], hopts⟩
  | trojan =>
    rw [hp] at hresult hnone
    obtain rfl := Except.ok.inj hresult
    exact ⟨by rw [hp]; rfl, rfl, rfl, rfl, rfl, by simp [hp, usesUUID], rfl, rfl, rfl,
      hreality _, by simp [hp, usesUUID], by simp [hp], by simp [hp], by simp [hnone], hopts⟩
  | shadowsocks =>
    rw [hp] at hresult hnone
    obtain rfl := Except.ok.inj hresult
    have hplain := (h.consistent.plain hp).2
    exact ⟨by rw [hp]; rfl, rfl, rfl, rfl, rfl, by simp [hplain], rfl, rfl, rfl,
      hreality _, by simp [hp, usesUUID], by simp [hp], fun _ => rfl, by simp [hnone], hopts⟩
  | socks5 =>
    rw [hp] at hresult hnone
    obtain rfl := Except.ok.inj hresult
    have hplain := h.options.socks hp
    exact ⟨by rw [hp]; rfl, rfl, rfl, rfl, rfl, by simp [hplain], rfl, rfl, rfl,
      hreality _, by simp [hp, usesUUID], fun _ => rfl, by simp [hp], by simp [hnone], hopts⟩
  | httpProxy =>
    rw [hp] at hresult hnone
    obtain rfl := Except.ok.inj hresult
    exact ⟨by rw [hp]; rfl, rfl, rfl, rfl, rfl,
      fun henabled => by simp [hp, usesUUID, henabled], rfl, rfl, rfl, hreality _,
      by simp [hp, usesUUID], fun _ => rfl, by simp [hp], by simp [hnone], hopts⟩
  | hysteria2 =>
    obtain ⟨-, -, -, options, hoptions⟩ := h.options.hysteria hp
    have hports := readPorts_joinPorts (h.hysteria options hoptions).range
    rw [hp, hoptions] at hresult
    obtain rfl := Except.ok.inj hresult
    refine ⟨by rw [hp]; rfl, rfl, rfl, rfl, rfl, by simp [hp, usesUUID, renderHysteria2], rfl,
      rfl, rfl, hreality _, by simp [hp, usesUUID, renderHysteria2], by simp [hp], by simp [hp],
      ?_, hopts⟩
    intro options' hoptions'
    obtain rfl : options = options' := Option.some.inj (hoptions.symm.trans hoptions')
    refine ⟨?_, rfl, rfl, ?_⟩
    · simp only [renderHysteria2, ne_eq, List.length_eq_zero_iff]
      split_ifs with hempty
      · exact hempty
      · exact hports.symm
    · simp only [renderHysteria2, ne_eq]
      split_ifs with hempty
      · exact hempty
      · rfl

/-- Hysteria2 options are determined by what is read of them. -/
theorem hysteria2_eq {options options' : Hysteria2Options} (h : options.Normal)
    (h' : options'.Normal) (hports : options.portRanges = options'.portRanges)
    (hup : (if options.upMbps ≠ 0 then mbps options.upMbps else []) =
      if options'.upMbps ≠ 0 then mbps options'.upMbps else [])
    (hdown : (if options.upMbps ≠ 0 then mbps options.downMbps else []) =
      if options'.upMbps ≠ 0 then mbps options'.downMbps else [])
    (hsecret : options.revealSalamanderPassword = options'.revealSalamanderPassword) :
    options = options' := by
  have hne : ∀ value : Int, mbps value ≠ [] := by
    intro value hnil
    exact absurd (List.append_eq_nil_iff.mp hnil).2 (by decide)
  have hzero : ∀ {o : Hysteria2Options}, o.Normal → o.upMbps = 0 → o.downMbps = 0 := by
    intro o ho hzero
    obtain ⟨hbandwidth, -⟩ := ite_invalid_eq_ok.mp ho.renew
    simp only [hzero, Bool.or_eq_true, not_or, bne_iff_ne, not_not, decide_true,
      true_eq_decide_iff] at hbandwidth
    exact hbandwidth.2
  have hspeed : options.upMbps = options'.upMbps ∧ options.downMbps = options'.downMbps := by
    by_cases hz : options.upMbps = 0
    · by_cases hz' : options'.upMbps = 0
      · exact ⟨by rw [hz, hz'], by rw [hzero h hz, hzero h' hz']⟩
      · rw [if_neg (not_not.mpr hz), if_pos hz'] at hup
        exact absurd hup.symm (hne _)
    · by_cases hz' : options'.upMbps = 0
      · rw [if_pos hz, if_neg (not_not.mpr hz')] at hup
        exact absurd hup (hne _)
      · rw [if_pos hz, if_pos hz'] at hup hdown
        exact ⟨mbps_injective h.shaped.upMbps h'.shaped.upMbps hup,
          mbps_injective h.shaped.downMbps h'.shaped.downMbps hdown⟩
  have hobfs : options.obfsPassword = options'.obfsPassword := by
    have hrenew := h.renew
    rw [hspeed.1, hspeed.2, hsecret, h'.renew] at hrenew
    exact (congrArg Hysteria2Options.obfsPassword (Except.ok.inj hrenew)).symm
  obtain ⟨up, down, secret, ports⟩ := options
  obtain ⟨up', down', secret', ports'⟩ := options'
  obtain ⟨hup, hdown⟩ := hspeed
  subst hup hdown hobfs hports
  rfl

/-- A credential is determined by its protocol and the texts that are read of it. -/
theorem credential_eq {c c' : Credential} (h : c.Normal) (h' : c'.Normal)
    (hprotocol : c.protocol = c'.protocol) (hsecret : c.reveal = c'.reveal)
    (husername : c.protocol = .socks5 ∨ c.protocol = .httpProxy → c.username = c'.username) :
    c = c' := by
  have hrenew : c.renew = c'.renew := by
    unfold Credential.renew
    rw [← hprotocol, hsecret]
    cases hp : c.protocol with
    | socks5 => rw [husername (.inl hp)]
    | httpProxy => rw [husername (.inr hp)]
    | _ => rfl
  rw [h.renew, h'.renew] at hrenew
  exact Except.ok.inj hrenew

/-- The flow of a valid configuration is determined by its text. -/
theorem flow_eq {c' : Configuration} (h : c.OptionsConsistent) (h' : c'.OptionsConsistent)
    (hflow : c.flow.string = c'.flow.string) : c.flow = c'.flow := by
  have hcases : ∀ {c : Configuration}, c.OptionsConsistent → c.flow = .none ∨ c.flow = .vision := by
    intro c hc
    by_cases hnone : c.flow = .none
    · exact .inl hnone
    · exact .inr (hc.flow hnone).1
  rcases hcases h with hf | hf <;> rcases hcases h' with hf' | hf'
  · rw [hf, hf']
  · rw [hf, hf'] at hflow
    exact absurd hflow (by decide)
  · rw [hf, hf'] at hflow
    exact absurd hflow (by decide)
  · rw [hf, hf']

end Accepted

/-- **A proxy is read in one way**: configurations with a reading in one proxy are equal. -/
theorem Reading.eq {unicode : Unicode} {c' : Configuration} (r : Reading c p) (r' : Reading c' p)
    (h : c.Normal unicode) (h' : c'.Normal unicode)
    (hquic : c.transport.kind = .quic ↔ c.protocol = .hysteria2)
    (hquic' : c'.transport.kind = .quic ↔ c'.protocol = .hysteria2) : c = c' := by
  have hprotocol : c.protocol = c'.protocol := typeName_injective (r.type.trans r'.type.symm)
  have haddress : c.address = c'.address := by
    have hhost := r.host.trans r'.host.symm
    have hkind : c.address.kind = c'.address.kind := by
      have hnormal := h.host
      rw [hhost] at hnormal
      exact hnormal.kind_unique h'.host
    exact Address.ext hhost (Fin.ext (r.port.trans r'.port.symm)) hkind
  have hcredential : c.credential = c'.credential := by
    have hp := h.checked.credentialProtocol
    have hp' := h'.checked.credentialProtocol
    refine credential_eq h.credential h'.credential (by rw [hp, hp', hprotocol]) ?_ ?_
    · rw [r.secret, r'.secret, hprotocol]
    · intro hproxy
      rw [hp] at hproxy
      rw [r.username hproxy, r'.username (hprotocol ▸ hproxy)]
  have htls : c.tls = c'.tls := by
    have henabled := r.enabled.trans r'.enabled.symm
    cases hon : c.tls.enabled with
    | false => rw [h.tls.disabled hon, h'.tls.disabled (henabled ▸ hon)]
    | true =>
      refine TLSConfig.ext henabled ?_ (r.insecure.trans r'.insecure.symm)
      rw [r.serverName hon, r'.serverName (henabled ▸ hon), hprotocol]
  have hsecurity : c.securityOptions = c'.securityOptions := by
    have halpn := r.alpn.trans r'.alpn.symm
    have hfingerprint := r.fingerprint.trans r'.fingerprint.symm
    have hreality := r.reality.trans r'.reality.symm
    generalize c.securityOptions = s at halpn hfingerprint hreality
    generalize c'.securityOptions = s' at halpn hfingerprint hreality
    obtain ⟨alpn, fingerprint, reality⟩ := s
    obtain ⟨alpn', fingerprint', reality'⟩ := s'
    subst halpn hfingerprint hreality
    rfl
  have hflow : c.flow = c'.flow := flow_eq h.options h'.options (r.flow.trans r'.flow.symm)
  have hmethod : c.method = c'.method := by
    by_cases hsome : c.protocol = .vmess ∨ c.protocol = .shadowsocks
    · rw [r.method hsome, r'.method (hprotocol ▸ hsome)]
    · rw [not_or] at hsome
      rw [h.method_eq_nil hsome.1 hsome.2]
      rw [hprotocol] at hsome
      rw [h'.method_eq_nil hsome.1 hsome.2]
  have hhysteria : c.hysteria2 = c'.hysteria2 := by
    by_cases hp : c.protocol = .hysteria2
    · obtain ⟨-, -, -, options, hoptions⟩ := h.options.hysteria hp
      obtain ⟨-, -, -, options', hoptions'⟩ := h'.options.hysteria (hprotocol ▸ hp)
      obtain ⟨hports, hup, hdown, hsecret⟩ := r.hysteria options hoptions
      obtain ⟨hports', hup', hdown', hsecret'⟩ := r'.hysteria options' hoptions'
      rw [hoptions, hoptions', hysteria2_eq (h.hysteria options hoptions)
        (h'.hysteria options' hoptions') (hports.trans hports'.symm) (hup.symm.trans hup')
        (hdown.symm.trans hdown') (hsecret.trans hsecret'.symm)]
    · rw [h.options.noHysteria hp, h'.options.noHysteria (hprotocol ▸ hp)]
  have htransport : c.transport = c'.transport := by
    obtain ⟨q, hq, hsame⟩ := r.transport
    obtain ⟨q', hq', hsame'⟩ := r'.transport
    refine transport_eq h.transport h'.transport ?_ hq hq' ?_
    · rw [hquic, hquic', hprotocol]
    · obtain ⟨hws, hh2, hgrpc, hxhttp⟩ := hsame
      obtain ⟨hws', hh2', hgrpc', hxhttp'⟩ := hsame'
      exact ⟨hws.trans hws'.symm, hh2.trans hh2'.symm, hgrpc.trans hgrpc'.symm,
        hxhttp.trans hxhttp'.symm⟩
  exact h.eq_of_parts h' hprotocol haddress hcredential htransport htls hsecurity hflow hhysteria
    hmethod

/-- The reading does not depend on the name of the proxy. -/
theorem Reading.unnamed (r : Reading c p) : Reading c { p with name := [] } :=
  ⟨r.type, r.host, r.port, r.enabled, r.insecure, r.serverName, r.flow, r.alpn, r.fingerprint,
    r.reality, r.secret, r.username, r.method, r.hysteria, r.transport⟩

/-! ## Nothing is lost -/

/-- **Rendering for Mihomo loses nothing.**  A constructed configuration is rendered exactly if
the capability gate accepts it, and proxies that agree in every field but the name are rendered
from equivalent configurations. -/
theorem mihomo_renders_exactly {unicode : Unicode} (hunicode : unicode.KeepsNumerals) :
    (∀ item : NamedRecord, item.record.configuration.Built unicode →
      ((∃ p, renderProxy item = .ok p) ↔
        checkEndpoint mihomo11931 item.record.configuration = .ok ())) ∧
    ∀ item item' : NamedRecord, item.record.configuration.Built unicode →
      item'.record.configuration.Built unicode → ∀ p p' : Proxy, renderProxy item = .ok p →
        renderProxy item' = .ok p' → { p with name := [] } = { p' with name := [] } →
          item.record.configuration.equivalent item'.record.configuration = true := by
  constructor
  · intro item hbuilt
    have h := hbuilt.normal hunicode
    constructor
    · rintro ⟨p, hp⟩
      exact (renderProxy_eq_ok.mp hp).1
    · intro hcheck
      obtain ⟨result, hresult⟩ := exists_renderProtocol (commonProxy item) h.consistent.protocol
      obtain ⟨p, hp⟩ := exists_renderTransport result (by
        intro hunknown
        have hvalid := h.checked.transport
        rw [Transport.valid, hunknown] at hvalid
        simp [AdvancedTransport.valid] at hvalid)
      exact ⟨p, renderProxy_eq_ok.mpr ⟨hcheck, result, hresult, hp⟩⟩
  · intro item item' hbuilt hbuilt' p p' hp hp' hsame
    have h := hbuilt.normal hunicode
    have h' := hbuilt'.normal hunicode
    have hreading := (reading_of_renderProxy h hp).unnamed
    have hreading' := (reading_of_renderProxy h' hp').unnamed
    rw [hsame] at hreading
    have hquic := kind_eq_quic_iff h (renderProxy_eq_ok.mp hp).1
    have hquic' := kind_eq_quic_iff h' (renderProxy_eq_ok.mp hp').1
    apply (hbuilt.shaped.equivalent_iff hbuilt'.shaped).mpr
    exact hreading.eq hreading' h h' hquic hquic'

end Egressfox.Engine.Mihomo

namespace Egressfox.Engine.Mihomo.Sample

open Lib Endpoint.Sample

/-- Two names for one endpoint: both are rendered, and only a proxy of an equivalent
configuration can agree with the first. -/
theorem mihomo_renders_exactly_ports :
    (∃ p, renderProxy ⟨ascii "egressfox-a", record (ascii "old")⟩ = .ok p) ∧
    ∀ p p', renderProxy ⟨ascii "egressfox-a", record (ascii "old")⟩ = .ok p →
      renderProxy ⟨ascii "egressfox-b", record (ascii "new")⟩ = .ok p' →
        { p with name := [] } = { p' with name := [] } →
          (hysteria (ascii "old")).equivalent (hysteria (ascii "new")) = true := by
  obtain ⟨hiff, hequal⟩ := mihomo_renders_exactly keepsNumerals
  refine ⟨(hiff ⟨ascii "egressfox-a", record (ascii "old")⟩ hysteria_old_built).mpr ?_, ?_⟩
  · decide +kernel
  · exact hequal ⟨ascii "egressfox-a", record (ascii "old")⟩
      ⟨ascii "egressfox-b", record (ascii "new")⟩ hysteria_old_built hysteria_new_built

end Egressfox.Engine.Mihomo.Sample
