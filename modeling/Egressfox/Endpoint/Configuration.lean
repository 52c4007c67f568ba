import Egressfox.Endpoint.Address

/-!
# Connection configurations

The data of `internal/endpoint/configuration.go` and `internal/endpoint/advanced.go`,
with the predicates `valid` and `equal` / `Equivalent`.  The constructors are in
`Egressfox.Endpoint.Constructors`.

Pointers of the source are options: an absent secret, WebSocket path, advanced part,
Reality or Hysteria2 part is `none`.  Slices are lists, so a nil slice and an empty one
are the same value, as they are for every function of the package.
-/

namespace Egressfox.Endpoint

open Lib

/-- An admitted endpoint protocol.  Every other value of the `uint8` type fails the
same checks as `unknown`. -/
inductive Protocol where
  | unknown
  | vless
  | trojan
  | vmess
  | shadowsocks
  | socks5
  | httpProxy
  | hysteria2
deriving DecidableEq, Repr

/-- The value of the `uint8` constant. -/
def Protocol.code : Protocol → Byte
  | .unknown => 0
  | .vless => 1
  | .trojan => 2
  | .vmess => 3
  | .shadowsocks => 4
  | .socks5 => 5
  | .httpProxy => 6
  | .hysteria2 => 7

theorem Protocol.code_injective : Function.Injective Protocol.code := by
  intro p q h
  cases p <;> cases q <;> first | rfl | exact absurd h (by decide)

/-! ## Credentials -/

/-- Secret-bearing authentication material. -/
@[ext] structure Credential where
  protocol : Protocol := .unknown
  secret : Option Bytes := none
  username : Bytes := []
deriving DecidableEq, Repr

/-- `Credential.valid`. -/
def Credential.valid (c : Credential) : Bool :=
  match c.secret with
  | none => false
  | some secret =>
    if c.protocol = .socks5 || c.protocol = .httpProxy then
      decide (c.username = []) == decide (secret = [])
    else
      secret ≠ [] && (c.protocol = .vless || c.protocol = .trojan || c.protocol = .vmess ||
        c.protocol = .shadowsocks || c.protocol = .hysteria2)

/-- `Credential.equal`.  The constant-time comparisons compare contents. -/
def Credential.equal (c other : Credential) : Bool :=
  c.valid && other.valid && c.protocol = other.protocol && c.secret = other.secret &&
    c.username = other.username

/-- A valid credential has a secret. -/
theorem Credential.secret_isSome {c : Credential} (h : c.valid = true) : c.secret.isSome := by
  unfold Credential.valid at h
  cases hs : c.secret with
  | none => simp [hs] at h
  | some secret => rfl

theorem Credential.equal_iff {c other : Credential} (hc : c.valid = true)
    (ho : other.valid = true) : c.equal other = true ↔ c = other := by
  obtain ⟨protocol, secret, username⟩ := c
  obtain ⟨protocol', secret', username'⟩ := other
  simp only [Credential.equal, hc, ho, Bool.true_and, Bool.and_eq_true, decide_eq_true_eq,
    Credential.mk.injEq, and_assoc]

/-! ## Transports -/

/-- An admitted connection transport. -/
inductive TransportKind where
  | unknown
  | tcp
  | webSocket
  | http2
  | httpUpgrade
  | grpc
  | quic
  | xhttp
deriving DecidableEq, Repr

/-- The value of the `uint8` constant. -/
def TransportKind.code : TransportKind → Byte
  | .unknown => 0
  | .tcp => 1
  | .webSocket => 2
  | .http2 => 3
  | .httpUpgrade => 4
  | .grpc => 5
  | .quic => 6
  | .xhttp => 7

theorem TransportKind.code_injective : Function.Injective TransportKind.code := by
  intro k l h
  cases k <;> cases l <;> first | rfl | exact absurd h (by decide)

/-- `advancedTransport`. -/
structure AdvancedTransport where
  path : Bytes := []
  host : Bytes := []
  service : Bytes := []
  mode : Bytes := []
deriving DecidableEq, Repr

/-- The modes admitted for XHTTP. -/
def xhttpModes : List Bytes := [ascii "stream-one", ascii "stream-up", ascii "packet-up"]

/-- `advancedTransport.valid`. -/
def AdvancedTransport.valid (t : AdvancedTransport) : TransportKind → Bool
  | .http2 | .httpUpgrade => t.path ≠ [] && t.service = [] && t.mode = []
  | .grpc => t.service ≠ [] && t.path = [] && t.host = [] && t.mode = []
  | .xhttp => t.path ≠ [] && t.service = [] && t.mode ∈ xhttpModes
  | .quic => t.path = [] && t.host = [] && t.service = []
  | .unknown | .tcp | .webSocket => false

/-- The typed options of a transport. -/
structure Transport where
  kind : TransportKind := .unknown
  webSocketPath : Option Bytes := none
  webSocketHost : Bytes := []
  advanced : Option AdvancedTransport := none
deriving DecidableEq, Repr

namespace Transport

/-- `Transport.WebSocketPath`. -/
def webSocketPathText (t : Transport) : Bytes := t.webSocketPath.getD []

/-- `Transport.Path`. -/
def path (t : Transport) : Bytes := (t.advanced.map (·.path)).getD []

/-- `Transport.Host`. -/
def host (t : Transport) : Bytes := (t.advanced.map (·.host)).getD []

/-- `Transport.Service`. -/
def service (t : Transport) : Bytes := (t.advanced.map (·.service)).getD []

/-- `Transport.Mode`. -/
def mode (t : Transport) : Bytes := (t.advanced.map (·.mode)).getD []

/-- `Transport.identityService`: the service slot of the encoding holds the mode of XHTTP. -/
def identityService (t : Transport) : Bytes := if t.kind = .xhttp then t.mode else t.service

/-- `Transport.valid`. -/
def valid (t : Transport) : Bool :=
  t.kind = .tcp && t.webSocketPath = none && t.webSocketHost = [] && t.advanced = none ||
  t.kind = .webSocket && t.webSocketPath ≠ none && t.webSocketPath ≠ some [] &&
    t.advanced = none ||
  t.webSocketPath = none && t.webSocketHost = [] && t.advanced.any (·.valid t.kind)

/-- `Transport.equal`. -/
def equal (t other : Transport) : Bool :=
  t.kind = other.kind && t.webSocketPathText = other.webSocketPathText &&
    t.webSocketHost = other.webSocketHost && t.advanced = other.advanced

/-- A valid transport is TCP, WebSocket, or one of the transports with an advanced part. -/
theorem valid_iff {t : Transport} : t.valid = true ↔
    t = ⟨.tcp, none, [], none⟩ ∨
    (∃ path ≠ [], t = ⟨.webSocket, some path, t.webSocketHost, none⟩) ∨
    ∃ advanced, advanced.valid t.kind = true ∧ t = ⟨t.kind, none, [], some advanced⟩ := by
  obtain ⟨kind, path, host, advanced⟩ := t
  simp only [valid, Bool.or_eq_true, Bool.and_eq_true, decide_eq_true_eq, Option.any_eq_true,
    Transport.mk.injEq, or_assoc]
  refine or_congr (by tauto) (or_congr ?_ ?_)
  · constructor
    · rintro ⟨⟨⟨rfl, hnone⟩, hempty⟩, rfl⟩
      obtain ⟨p, rfl⟩ := Option.ne_none_iff_exists'.mp hnone
      exact ⟨p, fun h => hempty (by rw [h]), rfl, rfl, trivial, rfl⟩
    · rintro ⟨p, hp, rfl, rfl, -, rfl⟩
      exact ⟨⟨⟨rfl, Option.some_ne_none p⟩, fun h => hp (Option.some.inj h)⟩, rfl⟩
  · constructor
    · rintro ⟨⟨rfl, rfl⟩, a, rfl, ha⟩
      exact ⟨a, ha, trivial, rfl, rfl, rfl⟩
    · rintro ⟨a, ha, -, rfl, rfl, rfl⟩
      exact ⟨⟨rfl, rfl⟩, a, rfl, ha⟩

end Transport

/-! ## TLS and security options -/

/-- TLS behaviour.  The zero value disables TLS. -/
@[ext] structure TLSConfig where
  enabled : Bool := false
  serverName : Bytes := []
  insecureSkipVerify : Bool := false
deriving DecidableEq, Repr

/-- Client authentication for a Reality handshake. -/
structure Reality where
  publicKey : Bytes := []
  shortID : Bytes := []
deriving DecidableEq, Repr

structure SecurityOptions where
  alpn : List Bytes := []
  fingerprint : Bytes := []
  reality : Option Reality := none
deriving DecidableEq, Repr

/-- `SecurityOptions.equal`: agreement of all fields. -/
def SecurityOptions.equal (s other : SecurityOptions) : Bool :=
  s.fingerprint = other.fingerprint && s.alpn = other.alpn && s.reality = other.reality

/-- The flow control of VLESS.  `other` stands for the values of the `uint8` type
without a name, which no valid configuration carries. -/
inductive VLESSFlow where
  | none
  | vision
  | other
deriving DecidableEq, Repr

/-- The value of the `uint8` constant. -/
def VLESSFlow.code : VLESSFlow → Byte
  | .none => 0
  | .vision => 1
  | .other => 2

theorem VLESSFlow.code_injective : Function.Injective VLESSFlow.code := by
  intro f g h
  cases f <;> cases g <;> first | rfl | exact absurd h (by decide)

structure Hysteria2Options where
  upMbps : Int := 0
  downMbps : Int := 0
  obfsPassword : Option Bytes := none
  portRanges : List Bytes := []
deriving DecidableEq, Repr

/-- `Hysteria2Options.RevealSalamanderPassword`. -/
def Hysteria2Options.revealSalamanderPassword (h : Hysteria2Options) : Bytes :=
  h.obfsPassword.getD []

/-- The comparison of two Hysteria2 parts in `advancedConnection.equal`. -/
def Hysteria2Options.equal (h other : Hysteria2Options) : Bool :=
  h.upMbps = other.upMbps && h.downMbps = other.downMbps &&
    h.revealSalamanderPassword = other.revealSalamanderPassword &&
    h.portRanges = other.portRanges

/-- The comparison of two possibly absent Hysteria2 parts. -/
def hysteriaEqual : Option Hysteria2Options → Option Hysteria2Options → Bool
  | none, none => true
  | some h, some h' => h.equal h'
  | _, _ => false

/-- `advancedConnection`. -/
structure AdvancedConnection where
  flow : VLESSFlow := .none
  security : SecurityOptions := {}
  hysteria : Option Hysteria2Options := none
deriving DecidableEq, Repr

/-- `advancedConnection.equal`, on a present part. -/
def AdvancedConnection.equal (a other : AdvancedConnection) : Bool :=
  a.flow = other.flow && a.security.equal other.security &&
    hysteriaEqual a.hysteria other.hysteria

/-! ## Configurations -/

/-- A normalised endpoint connection configuration. -/
structure Configuration where
  protocol : Protocol := .unknown
  address : Address := {}
  credential : Credential := {}
  transport : Transport := {}
  tls : TLSConfig := {}
  method : Bytes := []
  advanced : Option AdvancedConnection := none
deriving DecidableEq, Repr

/-- `advancedConnection.valid` on a present part. -/
def AdvancedConnection.valid (a : AdvancedConnection) (c : Configuration) : Bool :=
  if a.flow ≠ .none && (a.flow ≠ .vision || c.protocol ≠ .vless || c.transport.kind ≠ .tcp ||
      !c.tls.enabled) then false
  else if (0 < a.security.alpn.length || a.security.fingerprint ≠ [] ||
      a.security.reality ≠ none) && !c.tls.enabled then false
  else if a.security.reality ≠ none &&
      (c.protocol ≠ .vless || c.tls.insecureSkipVerify || c.tls.serverName = []) then false
  else if a.security.reality ≠ none && c.transport.kind ≠ .tcp then false
  else if c.transport.kind = .http2 && !c.tls.enabled then false
  else if c.protocol = .trojan && c.transport.kind = .http2 then false
  else if c.transport.kind = .xhttp && c.protocol ≠ .vless then false
  else if c.protocol = .socks5 || c.protocol = .httpProxy then
    c.transport.kind = .tcp && (c.protocol = .httpProxy || !c.tls.enabled) && a.flow = .none &&
      a.hysteria = none && a.security.reality = none && a.security.fingerprint = [] &&
      a.security.alpn.length = 0
  else if c.protocol = .hysteria2 then
    c.transport.kind = .quic && a.hysteria ≠ none && a.flow = .none && a.security.reality = none
  else a.hysteria = none && c.transport.kind ≠ .quic

namespace Configuration

/-- `advancedConnection.valid` on a possibly absent part. -/
def advancedValid (c : Configuration) : Bool :=
  match c.advanced with
  | none => c.protocol ≠ .socks5 && c.protocol ≠ .httpProxy && c.protocol ≠ .hysteria2 &&
      c.transport.advanced = none
  | some a => a.valid c

/-- `Configuration.valid`. -/
def valid (c : Configuration) : Bool :=
  if c.protocol = .unknown then false
  else if !c.address.valid || !c.credential.valid || c.credential.protocol ≠ c.protocol ||
      !c.transport.valid then false
  else if (c.protocol = .trojan || c.protocol = .hysteria2) && !c.tls.enabled then false
  else if c.protocol = .shadowsocks && (c.transport.kind ≠ .tcp || c.tls.enabled) then false
  else if (c.protocol = .vmess || c.protocol = .shadowsocks) && c.method = [] then false
  else if !c.advancedValid then false
  else !c.tls.enabled || c.tls.serverName ≠ []

/-- `advancedConnection.equal` on possibly absent parts. -/
def advancedEqual : Option AdvancedConnection → Option AdvancedConnection → Bool
  | none, none => true
  | some a, some b => a.equal b
  | _, _ => false

/-- `Configuration.Equivalent`. -/
def equivalent (c other : Configuration) : Bool :=
  c.protocol = other.protocol && c.address = other.address &&
    c.credential.equal other.credential && c.transport.equal other.transport &&
    c.tls = other.tls && c.method = other.method && advancedEqual c.advanced other.advanced

/-- The checks of `valid` that the encoding of a configuration relies on. -/
structure Checked (c : Configuration) : Prop where
  address : c.address.valid = true
  credential : c.credential.valid = true
  credentialProtocol : c.credential.protocol = c.protocol
  transport : c.transport.valid = true
  advanced : c.advancedValid = true

theorem checked_of_valid {c : Configuration} (h : c.valid = true) : c.Checked := by
  unfold valid at h
  split_ifs at h with hprotocol hfields htls hss hmethod hadvanced
  simp only [Bool.or_eq_true, Bool.not_eq_true', decide_eq_true_eq, not_or, Bool.not_eq_false,
    not_not] at hfields
  obtain ⟨⟨⟨haddress, hcredential⟩, hsame⟩, htransport⟩ := hfields
  exact ⟨haddress, hcredential, hsame, htransport, by simpa using hadvanced⟩

/-- Without an advanced part there is no advanced transport, and the protocol is one of
the first four. -/
theorem Checked.of_advanced_none {c : Configuration} (h : c.Checked) (hnone : c.advanced = none) :
    c.transport.advanced = none ∧ c.protocol ≠ .socks5 ∧ c.protocol ≠ .httpProxy := by
  have hadvanced := h.advanced
  simp only [advancedValid, hnone, Bool.and_eq_true, decide_eq_true_eq, ne_eq] at hadvanced
  exact ⟨hadvanced.2, hadvanced.1.1.1, hadvanced.1.1.2⟩

end Configuration

end Egressfox.Endpoint
