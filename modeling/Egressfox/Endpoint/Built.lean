import Egressfox.Endpoint.Constructors

/-!
# Constructed configurations

The fields of the configuration types are private to the package, so outside of it a
value is either the zero value of its type or comes out of a constructor or an accessor.
The predicates `Built` say this for each type.

A constructed configuration consists of constructed parts (`Configuration.Built.parts`).  What
the encoding of a configuration needs to know about it is collected in
`Configuration.Shaped`: besides `valid`, every text is short, the counts fit one byte,
and the fields that `valid` leaves open have the value the constructors give them.
`Configuration.Built.shaped` proves it for every constructed configuration, one
component at a time.
-/

namespace Egressfox.Endpoint

open Lib

/-- Short enough for a four-byte length. -/
def Short (text : Bytes) : Prop := text.length ≤ 4096

theorem short_nil : Short [] := Nat.zero_le _

variable {text host path : Bytes} {unicode : Unicode} {protocol : Protocol} {t : Transport}
  {c : Configuration}

theorem short_of_length_le {n : Nat} (h : text.length ≤ n) (hn : n ≤ 4096) :
    Short text := h.trans hn

theorem short_of_mem {texts : List Bytes} (h : text ∈ texts) (hall : ∀ t ∈ texts, t.length ≤ 4096) :
    Short text := hall text h

/-! ## Addresses -/

/-- The zero address, or one from `NewAddress`. -/
inductive Address.Built (unicode : Unicode) : Address → Prop where
  | zero : Built unicode {}
  | new {host : Bytes} {port : Int} {a : Address} :
      newAddress unicode host port = .ok a → Built unicode a

theorem Address.Built.short {a : Address} (h : a.Built unicode) : Short a.host := by
  cases h with
  | zero => exact short_nil
  | new h => exact short_of_length_le (length_newAddress h) (by decide)

/-! ## Credentials -/

/-- The zero credential, or one from a constructor. -/
inductive Credential.Built : Credential → Prop where
  | zero : Built {}
  | vless {userID : Bytes} {c : Credential} : newVLESSCredential userID = .ok c → Built c
  | trojan {password : Bytes} {c : Credential} : newTrojanCredential password = .ok c → Built c
  | vmess {userID : Bytes} {c : Credential} : newVMessCredential userID = .ok c → Built c
  | shadowsocks {password : Bytes} {c : Credential} :
      newShadowsocksCredential password = .ok c → Built c
  | proxy {protocol : Protocol} {username password : Bytes} {c : Credential} :
      newProxyCredential protocol username password = .ok c → Built c
  | hysteria2 {password : Bytes} {c : Credential} :
      newHysteria2Credential password = .ok c → Built c

/-- Short texts, and a username only for the proxy protocols. -/
structure Credential.Shaped (c : Credential) : Prop where
  secret : ∀ s ∈ c.secret, Short s
  username : Short c.username
  proxy : c.username ≠ [] → c.protocol = .socks5 ∨ c.protocol = .httpProxy

theorem Credential.shaped_of_secret {secret : Bytes} (h : Short secret) :
    (⟨protocol, some secret, []⟩ : Credential).Shaped where
  secret _ hs := Option.some.inj hs ▸ h
  username := short_nil
  proxy hne := absurd rfl hne

theorem length_canonicalUUID {raw canonical : Bytes} (h : canonicalUUID raw = .ok canonical) :
    Short canonical := by
  simp only [canonicalUUID, ite_invalid_eq_ok] at h
  obtain ⟨-, h⟩ := h
  split at h
  · cases h
  · obtain ⟨-, h⟩ := ite_invalid_eq_ok.mp h
    obtain rfl := Except.ok.inj h
    have hdash : (ascii "-").length = 1 := by decide
    simp only [Short, List.length_append, List.length_drop, List.length_take, hdash]
    omega

theorem newPasswordCredential_shaped {field : String} {password : Bytes} {c : Credential}
    (h : newPasswordCredential protocol field password = .ok c) : c.Shaped := by
  simp only [newPasswordCredential, ite_invalid_eq_ok, Bool.or_eq_true, decide_eq_true_eq, not_or,
    not_lt] at h
  obtain ⟨⟨⟨-, hlength⟩, -⟩, h⟩ := h
  obtain rfl := Except.ok.inj h
  exact Credential.shaped_of_secret hlength

theorem Credential.Built.shaped {c : Credential} (h : c.Built) : c.Shaped := by
  cases h with
  | zero => exact ⟨by rintro s ⟨⟩, short_nil, fun h => absurd rfl h⟩
  | vless h | vmess h =>
    obtain ⟨canonical, huuid, h⟩ := bind_eq_ok.mp h
    obtain rfl := Except.ok.inj h
    exact Credential.shaped_of_secret (length_canonicalUUID huuid)
  | trojan h =>
    simp only [newTrojanCredential, ite_invalid_eq_ok, not_lt] at h
    obtain ⟨-, hlength, -, h⟩ := h
    obtain rfl := Except.ok.inj h
    exact Credential.shaped_of_secret hlength
  | shadowsocks h | hysteria2 h => exact newPasswordCredential_shaped h
  | @proxy protocol username password c h =>
    simp only [newProxyCredential, ite_invalid_eq_ok, Bool.and_eq_true, Bool.or_eq_true,
      decide_eq_true_eq, not_or, not_and, not_not, not_lt] at h
    obtain ⟨hprotocol, ⟨⟨⟨⟨⟨husername, hpassword⟩, -⟩, -⟩, -⟩, -⟩, -, h⟩ := h
    obtain rfl := Except.ok.inj h
    refine ⟨?_, short_of_length_le husername (by decide), ?_⟩
    · rintro s hs
      obtain rfl := Option.some.inj hs
      refine short_of_length_le hpassword ?_
      split <;> decide
    · intro _
      by_cases hs : protocol = .socks5
      · exact .inl hs
      · exact .inr (hprotocol hs)

/-! ## Transports -/

/-- The zero transport, or one from a constructor. -/
inductive Transport.Built (unicode : Unicode) : Transport → Prop where
  | zero : Built unicode {}
  | tcp : Built unicode newTCPTransport
  | webSocket {path : Bytes} {t : Transport} :
      newWebSocketTransport path = .ok t → Built unicode t
  | webSocketWithHost {path host : Bytes} {t : Transport} :
      newWebSocketTransportWithHost unicode path host = .ok t → Built unicode t
  | http2 {path host : Bytes} {t : Transport} :
      newHTTP2Transport unicode path host = .ok t → Built unicode t
  | httpUpgrade {path host : Bytes} {t : Transport} :
      newHTTPUpgradeTransport unicode path host = .ok t → Built unicode t
  | xhttp {path host mode : Bytes} {t : Transport} :
      newXHTTPTransport unicode path host mode = .ok t → Built unicode t
  | grpc {service : Bytes} {t : Transport} : newGRPCTransport service = .ok t → Built unicode t
  | quic : Built unicode newQUICTransport

/-- Short texts. -/
structure AdvancedTransport.Shaped (t : AdvancedTransport) : Prop where
  path : Short t.path
  host : Short t.host
  service : Short t.service
  mode : Short t.mode

/-- Short texts, and no mode on QUIC. -/
structure Transport.Shaped (t : Transport) : Prop where
  webSocketPath : Short t.webSocketPathText
  webSocketHost : Short t.webSocketHost
  advanced : ∀ a ∈ t.advanced, a.Shaped
  quic : t.kind = .quic → ∀ a ∈ t.advanced, a.mode = []

theorem short_of_normalizeOptionalHost {field : String}
    (h : normalizeOptionalHost unicode host field = .ok text) : Short text := by
  unfold normalizeOptionalHost at h
  split_ifs at h
  · obtain rfl := Except.ok.inj h
    exact short_nil
  · cases hhost : normalizeHost unicode host field with
    | error e => rw [hhost] at h; cases h
    | ok normalized =>
      rw [hhost] at h
      obtain rfl := Except.ok.inj h
      exact short_of_length_le (length_normalizeHost hhost) (by decide)

theorem newWebSocketTransport_eq (h : newWebSocketTransport path = .ok t) :
    t = ⟨.webSocket, some path, [], none⟩ ∧ Short path ∧ validUTF8 path = true := by
  simp only [newWebSocketTransport, ite_invalid_eq_ok, not_lt, Bool.not_eq_true',
    Bool.not_eq_false] at h
  obtain ⟨-, hlength, hutf8, -, h⟩ := h
  exact ⟨(Except.ok.inj h).symm, short_of_length_le hlength (by decide), hutf8⟩

theorem Transport.shaped_webSocket (hpath : Short path) (hhost : Short host) :
    (⟨.webSocket, some path, host, none⟩ : Transport).Shaped where
  webSocketPath := hpath
  webSocketHost := hhost
  advanced := by rintro a ⟨⟩
  quic := by rintro ⟨⟩

/-- The transports over HTTP keep the path and normalise the host. -/
theorem newHTTPTransport_options {kind : TransportKind}
    (h : newHTTPTransport unicode kind path host = .ok t) :
    Short path ∧ validUTF8 path = true ∧ ∃ normalized,
      normalizeOptionalHost unicode host "transport.host" = .ok normalized ∧
      t = ⟨kind, none, [], some { path := path, host := normalized }⟩ ∧
      ∀ other, normalizeOptionalHost unicode other "transport.host" = .ok normalized →
        newHTTPTransport unicode kind path other = .ok t := by
  obtain ⟨hpath, h⟩ := ite_invalid_eq_ok.mp h
  obtain ⟨hcontrol, h⟩ := ite_invalid_eq_ok.mp h
  obtain ⟨normalized, hhost, h⟩ := bind_eq_ok.mp h
  have hagain : ∀ other, normalizeOptionalHost unicode other "transport.host" = .ok normalized →
      newHTTPTransport unicode kind path other = .ok t := fun other hother =>
    ite_invalid_eq_ok.mpr ⟨hpath, ite_invalid_eq_ok.mpr ⟨hcontrol,
      bind_eq_ok.mpr ⟨normalized, hother, h⟩⟩⟩
  simp only [Bool.or_eq_true, decide_eq_true_eq, Bool.not_eq_true', not_or, not_lt,
    Bool.not_eq_false] at hpath
  exact ⟨short_of_length_le hpath.1.2 (by decide), hpath.2, normalized, hhost,
    (Except.ok.inj h).symm, hagain⟩

theorem newHTTPTransport_eq {kind : TransportKind}
    (h : newHTTPTransport unicode kind path host = .ok t) :
    ∃ a : AdvancedTransport, a.Shaped ∧ t = ⟨kind, none, [], some a⟩ := by
  obtain ⟨hpath, -, normalized, hhost, ht, -⟩ := newHTTPTransport_options h
  exact ⟨_, ⟨hpath, short_of_normalizeOptionalHost hhost, short_nil, short_nil⟩, ht⟩

theorem Transport.shaped_advanced {kind : TransportKind} {a : AdvancedTransport} (h : a.Shaped)
    (hquic : kind = .quic → a.mode = []) :
    (⟨kind, none, [], some a⟩ : Transport).Shaped where
  webSocketPath := short_nil
  webSocketHost := short_nil
  advanced _ hb := Option.some.inj hb ▸ h
  quic hk _ hb := Option.some.inj hb ▸ hquic hk

theorem Transport.Built.shaped (h : t.Built unicode) : t.Shaped := by
  have hplain : ∀ kind, (⟨kind, none, [], none⟩ : Transport).Shaped := fun kind =>
    ⟨short_nil, short_nil, by rintro a ⟨⟩, by rintro _ a ⟨⟩⟩
  cases h with
  | zero | tcp => exact hplain _
  | webSocket h =>
    obtain ⟨rfl, hpath, -⟩ := newWebSocketTransport_eq h
    exact Transport.shaped_webSocket hpath short_nil
  | webSocketWithHost h =>
    obtain ⟨t, ht, h⟩ := bind_eq_ok.mp h
    obtain ⟨normalized, hhost, h⟩ := bind_eq_ok.mp h
    obtain ⟨rfl, hpath, -⟩ := newWebSocketTransport_eq ht
    obtain rfl := Except.ok.inj h
    exact Transport.shaped_webSocket hpath (short_of_normalizeOptionalHost hhost)
  | http2 h | httpUpgrade h =>
    obtain ⟨a, ha, rfl⟩ := newHTTPTransport_eq h
    exact Transport.shaped_advanced ha (by rintro ⟨⟩)
  | @xhttp path host mode t h =>
    obtain ⟨hmode, h⟩ := ite_invalid_eq_ok.mp h
    obtain ⟨t, ht, h⟩ := bind_eq_ok.mp h
    obtain ⟨a, ha, rfl⟩ := newHTTPTransport_eq ht
    obtain rfl := Except.ok.inj h
    have hshort : Short mode := short_of_mem (not_not.mp hmode) (by decide)
    exact Transport.shaped_advanced ⟨ha.path, ha.host, ha.service, hshort⟩ (by rintro ⟨⟩)
  | grpc h =>
    simp only [newGRPCTransport, ite_invalid_eq_ok, Bool.or_eq_true, decide_eq_true_eq, not_or,
      not_lt] at h
    obtain ⟨⟨⟨⟨-, hlength⟩, -⟩, -⟩, h⟩ := h
    obtain rfl := Except.ok.inj h
    exact Transport.shaped_advanced
      ⟨short_nil, short_nil, short_of_length_le hlength (by decide), short_nil⟩ (by rintro ⟨⟩)
  | quic =>
    exact Transport.shaped_advanced ⟨short_nil, short_nil, short_nil, short_nil⟩ fun _ => rfl

/-! ## TLS and security options -/

/-- Disabled TLS, the result of `NewTLS`, or what `TLS` returns on a configuration whose
server name was defaulted. -/
inductive TLSConfig.Built (unicode : Unicode) : TLSConfig → Prop where
  | disabled : Built unicode disabledTLS
  | new {serverName : Bytes} {insecureSkipVerify : Bool} {tls : TLSConfig} :
      newTLS unicode serverName insecureSkipVerify = .ok tls → Built unicode tls
  | resolved {tls : TLSConfig} {address : Address} :
      Built unicode tls → address.Built unicode → Built unicode (tls.resolve address)

theorem TLSConfig.short_resolve {tls : TLSConfig} {address : Address}
    (htls : Short tls.serverName) (haddress : Short address.host) :
    Short (tls.resolve address).serverName := by
  unfold TLSConfig.resolve
  split
  · exact haddress
  · exact htls

theorem TLSConfig.Built.short {tls : TLSConfig} (h : tls.Built unicode) : Short tls.serverName := by
  induction h with
  | disabled => exact short_nil
  | new h =>
    obtain ⟨normalized, hhost, h⟩ := bind_eq_ok.mp h
    obtain rfl := Except.ok.inj h
    exact short_of_normalizeOptionalHost hhost
  | resolved _ haddress ih => exact TLSConfig.short_resolve ih haddress.short

/-- The zero value, or the result of `NewReality`. -/
inductive Reality.Built (unicode : Unicode) : Reality → Prop where
  | zero : Built unicode {}
  | new {publicKey shortID : Bytes} {r : Reality} :
      newReality unicode publicKey shortID = .ok r → Built unicode r

/-- Short texts. -/
structure Reality.Shaped (r : Reality) : Prop where
  publicKey : Short r.publicKey
  shortID : Short r.shortID

theorem Reality.Built.shaped {r : Reality} (h : r.Built unicode) : r.Shaped := by
  cases h with
  | zero => exact ⟨short_nil, short_nil⟩
  | new h =>
    unfold newReality at h
    split at h
    · cases h
    · rename_i decoded hdecoded
      simp only [ite_invalid_eq_ok, Bool.or_eq_true, decide_eq_true_eq, not_or, not_not,
        not_lt] at h
      obtain ⟨⟨hlength, rfl⟩, ⟨hshort, -⟩, h⟩ := h
      split at h
      · cases h
      · rename_i bytes hhex
        obtain rfl := Except.ok.inj h
        constructor
        · -- a canonical key is the encoding of 32 bytes
          simp [Short, hlength]
        · -- a hexadecimal text is ASCII, so its lower-case form has the same length
          rw [toLower, convertCase_of_ascii (ascii_of_hexDecode hhex), Short, List.length_map]
          exact hshort.trans (by decide)

/-- The zero value, or the result of `NewSecurityOptions`. -/
inductive SecurityOptions.Built (unicode : Unicode) : SecurityOptions → Prop where
  | zero : Built unicode {}
  | new {alpn : List Bytes} {fingerprint : Bytes} {reality : Option Reality}
      {s : SecurityOptions} : (∀ r ∈ reality, r.Built unicode) →
      newSecurityOptions alpn fingerprint reality = .ok s → Built unicode s

/-- Few and short texts. -/
structure SecurityOptions.Shaped (s : SecurityOptions) : Prop where
  alpn : s.alpn.length ≤ 8
  alpnShort : ∀ value ∈ s.alpn, Short value
  fingerprint : Short s.fingerprint
  reality : ∀ r ∈ s.reality, r.Shaped

theorem texts_of_checkALPN {seen alpn : List Bytes} (h : checkALPN seen alpn = .ok ()) :
    ∀ value ∈ alpn, Short value ∧ validUTF8 value = true := by
  induction alpn generalizing seen with
  | nil => simp
  | cons value rest ih =>
    simp only [checkALPN, ite_invalid_eq_ok, Bool.or_eq_true, decide_eq_true_eq, not_or,
      not_lt, Bool.not_eq_true', Bool.not_eq_false] at h
    obtain ⟨⟨⟨⟨-, hlength⟩, hutf8⟩, -⟩, -, h⟩ := h
    rintro v hv
    rcases List.mem_cons.mp hv with rfl | hv
    · exact ⟨short_of_length_le hlength (by decide), hutf8⟩
    · exact ih h v hv

theorem SecurityOptions.Built.shaped {s : SecurityOptions} (h : s.Built unicode) : s.Shaped := by
  cases h with
  | zero => exact ⟨by decide, by simp, short_nil, by rintro r ⟨⟩⟩
  | @new alpn fingerprint reality s hreality h =>
    obtain ⟨hcount, h⟩ := ite_invalid_eq_ok.mp h
    obtain ⟨_, halpn, h⟩ := bind_eq_ok.mp h
    simp only [ite_invalid_eq_ok, Bool.and_eq_true, decide_eq_true_eq, not_and, not_not] at h
    obtain ⟨hfingerprint, -, h⟩ := h
    obtain rfl := Except.ok.inj h
    refine ⟨not_lt.mp hcount, fun value hvalue => (texts_of_checkALPN halpn value hvalue).1, ?_,
      fun r hr => (hreality r hr).shaped⟩
    by_cases hempty : fingerprint = []
    · rw [hempty]
      exact short_nil
    · exact short_of_mem (hfingerprint hempty) (by decide)

/-! ## Hysteria2 options -/

/-- The zero value, or the result of one of the two constructors. -/
inductive Hysteria2Options.Built : Hysteria2Options → Prop where
  | zero : Built {}
  | new {upMbps downMbps : Int} {salamanderPassword : Bytes} {h : Hysteria2Options} :
      newHysteria2Options upMbps downMbps salamanderPassword = .ok h → Built h
  | withPorts {upMbps downMbps : Int} {salamanderPassword : Bytes} {ranges : List Bytes}
      {h : Hysteria2Options} :
      newHysteria2OptionsWithPorts upMbps downMbps salamanderPassword ranges = .ok h → Built h

/-- Bandwidths within bounds, an obfuscation password that is not empty, few and short
port ranges. -/
structure Hysteria2Options.Shaped (h : Hysteria2Options) : Prop where
  upMbps : 0 ≤ h.upMbps ∧ h.upMbps ≤ 100000
  downMbps : 0 ≤ h.downMbps ∧ h.downMbps ≤ 100000
  obfsPassword : ∀ password ∈ h.obfsPassword, password ≠ [] ∧ Short password
  portRanges : h.portRanges.length ≤ 16
  portRangesShort : ∀ entry ∈ h.portRanges, Short entry

theorem newHysteria2Options_shaped {upMbps downMbps : Int} {salamanderPassword : Bytes}
    {h : Hysteria2Options} (hnew : newHysteria2Options upMbps downMbps salamanderPassword = .ok h) :
    h.Shaped := by
  simp only [newHysteria2Options, ite_invalid_eq_ok, Bool.or_eq_true, decide_eq_true_eq, not_or,
    not_lt] at hnew
  obtain ⟨⟨⟨⟨⟨hup, hdown⟩, hup'⟩, hdown'⟩, -⟩, ⟨hlength, -⟩, hnew⟩ := hnew
  obtain rfl := Except.ok.inj hnew
  refine ⟨⟨hup, hup'⟩, ⟨hdown, hdown'⟩, ?_, Nat.zero_le _, by simp⟩
  intro password hpassword
  simp only [Option.mem_def, Option.ite_none_left_eq_some, Option.some.injEq] at hpassword
  obtain ⟨hne, rfl⟩ := hpassword
  exact ⟨hne, hlength⟩

theorem parsePort_range {low port : Int} (h : parsePort low text = some port) :
    low ≤ port ∧ port ≤ 65535 := by
  simp only [parsePort, Option.filter_eq_some_iff, Bool.and_eq_true, decide_eq_true_eq] at h
  exact h.2.1

theorem parsePortRange_range {entry : Bytes} {first last : Int}
    (h : parsePortRange entry = .ok (first, last)) :
    1 ≤ first ∧ first ≤ last ∧ last ≤ 65535 := by
  unfold parsePortRange at h
  split at h
  · split at h
    · rename_i port hport
      obtain ⟨rfl, rfl⟩ := Prod.mk.inj (Except.ok.inj h)
      have := parsePort_range hport
      omega
    · cases h
  · split at h
    · cases h
    · rename_i low hlow
      split at h
      · cases h
      · rename_i high hhigh
        obtain ⟨rfl, rfl⟩ := Prod.mk.inj (Except.ok.inj h)
        have := parsePort_range hlow
        have := parsePort_range hhigh
        omega
  · cases h

theorem length_itoa_le {port : Int} (hlow : 0 ≤ port) (hhigh : port ≤ 65535) :
    (itoa port).length ≤ 5 := by
  rw [itoa, if_neg (not_lt.mpr hlow)]
  apply length_decimal_le
  · decide
  · norm_num
    omega

/-- The entries of a port list denote these ranges, in order. -/
def Denote (entries : List Bytes) (ranges : List (Int × Int)) : Prop :=
  List.Forall₂ (fun entry range => parsePortRange entry = .ok range) entries ranges

/-- The number of ports in ranges, counted with repetition. -/
def portCount (ranges : List (Int × Int)) : Int :=
  (ranges.map fun range => range.2 - range.1 + 1).sum

/-- The canonical texts of ranges. -/
def rangeTexts (ranges : List (Int × Int)) : List Bytes :=
  ranges.map fun range => portRangeText range.1 range.2

section Ranges

variable {entries collected : List Bytes} {ranges : List (Int × Int)} {count : Int}

theorem Denote.bounds (h : Denote entries ranges) :
    ∀ range ∈ ranges, 1 ≤ range.1 ∧ range.1 ≤ range.2 ∧ range.2 ≤ 65535 := by
  induction h with
  | nil => simp
  | cons hrange _ ih => exact List.forall_mem_cons.mpr ⟨parsePortRange_range hrange, ih⟩

theorem Denote.portCount_nonneg (h : Denote entries ranges) : 0 ≤ portCount ranges := by
  apply List.sum_nonneg
  intro size hsize
  obtain ⟨range, hrange, rfl⟩ := List.mem_map.mp hsize
  have := h.bounds range hrange
  omega

/-- **What is collected**: the texts of the ranges, if these have at most 256 ports. -/
theorem collectPorts_eq_ok_iff :
    collectPorts count entries = .ok collected ↔ ∃ ranges, Denote entries ranges ∧
      (ranges = [] ∨ count + portCount ranges ≤ 256) ∧ collected = rangeTexts ranges := by
  induction entries generalizing count collected with
  | nil =>
    constructor
    · intro h
      exact ⟨[], .nil, .inl rfl, (Except.ok.inj h).symm⟩
    · rintro ⟨ranges, ⟨⟩, -, rfl⟩
      rfl
  | cons entry rest ih =>
    have hcount : ∀ (range : Int × Int) ranges, portCount (range :: ranges) =
        range.2 - range.1 + 1 + portCount ranges := fun _ _ => rfl
    constructor
    · intro h
      obtain ⟨range, hrange, h⟩ := bind_eq_ok.mp h
      obtain ⟨hfew, h⟩ := ite_invalid_eq_ok.mp h
      obtain ⟨tail, htail, h⟩ := bind_eq_ok.mp h
      obtain ⟨ranges, hdenote, hfits, rfl⟩ := ih.mp htail
      refine ⟨range :: ranges, .cons hrange hdenote, .inr ?_, (Except.ok.inj h).symm⟩
      rw [hcount]
      rcases hfits with rfl | hfits
      · simp only [portCount, List.map_nil, List.sum_nil]
        omega
      · omega
    · rintro ⟨_, hdenote, hfits, rfl⟩
      cases hdenote with
      | @cons _ range _ ranges hrange hdenote =>
        have hnonneg := Denote.portCount_nonneg hdenote
        have hfits := hfits.resolve_left (List.cons_ne_nil _ _)
        rw [hcount] at hfits
        refine bind_eq_ok.mpr ⟨range, hrange, ite_invalid_eq_ok.mpr ⟨by omega, ?_⟩⟩
        exact bind_eq_ok.mpr ⟨_, ih.mpr ⟨ranges, hdenote, .inr (by omega), rfl⟩, rfl⟩

theorem short_portRangeText {first last : Int} (hfirst : 0 ≤ first) (hle : first ≤ last)
    (hlast : last ≤ 65535) : Short (portRangeText first last) := by
  have hlow : (itoa first).length ≤ 5 := length_itoa_le hfirst (hle.trans hlast)
  have hhigh : (itoa last).length ≤ 5 := length_itoa_le (hfirst.trans hle) hlast
  have hcolon : (ascii ":").length = 1 := by decide
  unfold portRangeText Short
  split
  · omega
  · simp only [List.length_append]
    omega

/-- The collected texts are as many as the entries, and texts of ranges. -/
theorem texts_of_collectPorts (h : collectPorts count entries = .ok collected) :
    collected.length = entries.length ∧ ∀ text ∈ collected, ∃ first last : Int,
      1 ≤ first ∧ first ≤ last ∧ last ≤ 65535 ∧ text = portRangeText first last := by
  obtain ⟨ranges, hdenote, -, rfl⟩ := collectPorts_eq_ok_iff.mp h
  refine ⟨(List.length_map _).trans hdenote.length_eq.symm, fun text htext => ?_⟩
  obtain ⟨range, hrange, rfl⟩ := List.mem_map.mp htext
  obtain ⟨hfirst, hle, hlast⟩ := hdenote.bounds range hrange
  exact ⟨range.1, range.2, hfirst, hle, hlast, rfl⟩

end Ranges

theorem Hysteria2Options.Built.shaped {h : Hysteria2Options} (hbuilt : h.Built) : h.Shaped := by
  cases hbuilt with
  | zero => exact ⟨by decide, by decide, by rintro p ⟨⟩, by decide, by simp⟩
  | new hnew => exact newHysteria2Options_shaped hnew
  | withPorts hnew =>
    obtain ⟨options, hoptions, hnew⟩ := bind_eq_ok.mp hnew
    simp only [ite_invalid_eq_ok, Bool.or_eq_true, decide_eq_true_eq, not_or, not_lt] at hnew
    obtain ⟨⟨-, hcount⟩, hnew⟩ := hnew
    obtain ⟨ranges, hranges, hnew⟩ := bind_eq_ok.mp hnew
    obtain rfl := Except.ok.inj hnew
    obtain ⟨hlength, htexts⟩ := texts_of_collectPorts hranges
    refine { newHysteria2Options_shaped hoptions with
      portRanges := hlength.trans_le hcount, portRangesShort := fun entry hentry => ?_ }
    obtain ⟨first, last, hfirst, hle, hlast, rfl⟩ := htexts entry hentry
    exact short_portRangeText (by omega) hle hlast

/-! ## Configurations -/

/-- A configuration from one of the public constructors, applied to constructed parts. -/
inductive Configuration.Built (unicode : Unicode) : Configuration → Prop where
  | /-- `NewConfiguration` -/
    basic {protocol : Protocol} {address : Address} {credential : Credential}
      {transport : Transport} {tls : TLSConfig} {c : Configuration} :
      address.Built unicode → credential.Built → transport.Built unicode → tls.Built unicode →
      newConfiguration protocol address credential transport tls = .ok c → Built unicode c
  | /-- `NewVMessConfiguration` -/
    vmess {address : Address} {credential : Credential} {transport : Transport} {tls : TLSConfig}
      {method : Bytes} {c : Configuration} :
      address.Built unicode → credential.Built → transport.Built unicode → tls.Built unicode →
      newVMessConfiguration address credential transport tls method = .ok c → Built unicode c
  | /-- `NewShadowsocksConfiguration` -/
    shadowsocks {address : Address} {credential : Credential} {method : Bytes}
      {c : Configuration} :
      address.Built unicode → credential.Built →
      newShadowsocksConfiguration address credential method = .ok c → Built unicode c
  | /-- `NewExtendedConfiguration` -/
    extended {protocol : Protocol} {address : Address} {credential : Credential}
      {transport : Transport} {tls : TLSConfig} {security : SecurityOptions} {flow : VLESSFlow}
      {hysteria : Option Hysteria2Options} {c : Configuration} :
      address.Built unicode → credential.Built → transport.Built unicode → tls.Built unicode →
      security.Built unicode → (∀ h ∈ hysteria, h.Built) →
      newExtendedConfiguration protocol address credential transport tls security flow hysteria =
        .ok c → Built unicode c
  | /-- `NewExtendedVMessConfiguration` -/
    extendedVMess {address : Address} {credential : Credential} {transport : Transport}
      {tls : TLSConfig} {security : SecurityOptions} {method : Bytes} {c : Configuration} :
      address.Built unicode → credential.Built → transport.Built unicode → tls.Built unicode →
      security.Built unicode →
      newExtendedVMessConfiguration address credential transport tls security method = .ok c →
      Built unicode c
  | /-- `Configuration.WithAddress` -/
    withAddress {address : Address} {c c' : Configuration} :
      Built unicode c → address.Built unicode → c.withAddress address = .ok c' → Built unicode c'

/-- A setting admitted for the protocol, or none. -/
def AdmittedMethod (protocol : Protocol) (method : Bytes) : Prop :=
  method = [] ∨ protocol = .vmess ∧ method ∈ vmessMethods ∨
    protocol = .shadowsocks ∧ method ∈ shadowsocksMethods

/-- The parts of a constructed configuration are constructed, and an advanced part is present
only where the connection needs one. -/
structure Configuration.Parts (unicode : Unicode) (c : Configuration) : Prop where
  valid : c.valid = true
  address : c.address.Built unicode
  credential : c.credential.Built
  transport : c.transport.Built unicode
  tls : c.tls.Built unicode
  method : AdmittedMethod c.protocol c.method
  security : ∀ a ∈ c.advanced, a.security.Built unicode
  hysteria : ∀ a ∈ c.advanced, ∀ h ∈ a.hysteria, h.Built
  advanced : ∀ a ∈ c.advanced,
    isOldConnection c.transport a.security a.flow a.hysteria = true →
      c.protocol ≠ .vless ∧ c.protocol ≠ .trojan ∧ c.protocol ≠ .vmess
  shadowsocks : c.protocol = .shadowsocks → c.advanced = none

theorem validated_eq_ok {c' : Configuration} {problem : String} (h : validated c problem = .ok c') :
    c' = c ∧ c.valid = true := by
  unfold validated at h
  split_ifs at h with hvalid
  · exact ⟨(Except.ok.inj h).symm, hvalid⟩
  · cases h

section Constructors

variable {unicode : Unicode} {protocol : Protocol} {address : Address} {credential : Credential}
  {transport : Transport} {tls : TLSConfig} {method : Bytes} {c : Configuration}

section

variable (haddress : address.Built unicode) (hcredential : credential.Built)
  (htransport : transport.Built unicode) (htls : tls.Built unicode)
include haddress hcredential htransport htls

/-- The common end of the constructors without an advanced part. -/
theorem parts_of_validated {problem : String} (hmethod : AdmittedMethod protocol method)
    (h : validated ⟨protocol, address, credential, transport, tls.resolve address, method,
      none⟩ problem = .ok c)
    : c.Parts unicode := by
  obtain ⟨rfl, hvalid⟩ := validated_eq_ok h
  exact ⟨hvalid, haddress, hcredential, htransport, .resolved htls haddress, hmethod,
    by rintro a ⟨⟩, by rintro a ⟨⟩, by rintro a ⟨⟩, fun _ => rfl⟩

theorem newConfiguration_parts
    (h : newConfiguration protocol address credential transport tls = .ok c) :
    c.Parts unicode := by
  simp only [newConfiguration, ite_invalid_eq_ok] at h
  obtain ⟨-, -, -, -, -, h⟩ := h
  exact parts_of_validated haddress hcredential htransport htls (.inl rfl) h

theorem newAdditionalConfiguration_parts (hmethod : AdmittedMethod protocol method)
    (h : newAdditionalConfiguration protocol address credential transport tls method = .ok c) :
    c.Parts unicode := by
  obtain ⟨-, h⟩ := ite_invalid_eq_ok.mp h
  exact parts_of_validated haddress hcredential htransport htls hmethod h

theorem newVMessConfiguration_parts
    (h : newVMessConfiguration address credential transport tls method = .ok c) :
    c.Parts unicode := by
  obtain ⟨hmethod, h⟩ := ite_invalid_eq_ok.mp h
  exact newAdditionalConfiguration_parts haddress hcredential htransport htls
    (.inr (.inl ⟨rfl, not_not.mp hmethod⟩)) h

theorem newExtendedConfigurationWith_parts {security : SecurityOptions} {flow : VLESSFlow}
    {hysteria : Option Hysteria2Options} (hsecurity : security.Built unicode)
    (hhysteria : ∀ h ∈ hysteria, h.Built) (hmethod : method = [] ∨ protocol = .vmess)
    (hadmitted : AdmittedMethod protocol method)
    (h : newExtendedConfigurationWith protocol address credential transport tls security flow
      hysteria method = .ok c)
    : c.Parts unicode := by
  have hextended : extendedConfiguration protocol address credential transport tls security flow
      hysteria method = .ok c →
      (isOldConnection transport security flow hysteria = true →
        protocol ≠ .vless ∧ protocol ≠ .trojan ∧ protocol ≠ .vmess) → c.Parts unicode := by
    intro h hold
    obtain ⟨rfl, hvalid⟩ := validated_eq_ok h
    refine ⟨hvalid, haddress, hcredential, htransport, .resolved htls haddress, hadmitted,
      fun _ ha => Option.some.inj ha ▸ hsecurity, fun _ ha => Option.some.inj ha ▸ hhysteria,
      fun _ ha => Option.some.inj ha ▸ hold, ?_⟩
    -- Shadowsocks needs a method, which none of these constructors gives it
    rintro rfl
    obtain rfl : method = [] := hmethod.resolve_right (by decide)
    simp [Configuration.valid] at hvalid
  obtain ⟨-, h⟩ := ite_invalid_eq_ok.mp h
  split at h
  · split at h
    · exact newConfiguration_parts haddress hcredential htransport htls h
    · exact newConfiguration_parts haddress hcredential htransport htls h
    · exact newVMessConfiguration_parts haddress hcredential htransport htls h
    · rename_i hvless htrojan hvmess
      exact hextended h fun _ => ⟨hvless, htrojan, hvmess⟩
  · rename_i hold
    exact hextended h fun h => absurd h hold

end

end Constructors

/-- Replacing the address keeps a configuration valid: no other check looks at it. -/
theorem Configuration.valid_withAddress {address : Address} (hc : c.valid = true)
    (haddress : address.valid = true) :
    ({ c with address := address } : Configuration).valid = true := by
  have hold := (Configuration.checked_of_valid hc).address
  simpa [Configuration.valid, Configuration.advancedValid, AdvancedConnection.valid, hold,
    haddress] using hc

/-- **Every constructed configuration consists of constructed parts.** -/
theorem Configuration.Built.parts (h : c.Built unicode) : c.Parts unicode := by
  induction h with
  | basic haddress hcredential htransport htls h =>
    exact newConfiguration_parts haddress hcredential htransport htls h
  | vmess haddress hcredential htransport htls h =>
    exact newVMessConfiguration_parts haddress hcredential htransport htls h
  | shadowsocks haddress hcredential h =>
    obtain ⟨hmethod, h⟩ := ite_invalid_eq_ok.mp h
    exact newAdditionalConfiguration_parts haddress hcredential .tcp .disabled
      (.inr (.inr ⟨rfl, not_not.mp hmethod⟩)) h
  | extended haddress hcredential htransport htls hsecurity hhysteria h =>
    exact newExtendedConfigurationWith_parts haddress hcredential htransport htls hsecurity
      hhysteria (.inl rfl) (.inl rfl) h
  | extendedVMess haddress hcredential htransport htls hsecurity h =>
    obtain ⟨hmethod, h⟩ := ite_invalid_eq_ok.mp h
    exact newExtendedConfigurationWith_parts haddress hcredential htransport htls hsecurity
      (by rintro h ⟨⟩) (.inr rfl) (.inr (.inl ⟨rfl, not_not.mp hmethod⟩)) h
  | withAddress _ haddress h ih =>
    simp only [Configuration.withAddress, ite_invalid_eq_ok, Bool.or_eq_true,
      Bool.not_eq_true', not_or, Bool.not_eq_false] at h
    obtain ⟨⟨hvalid, hvalid'⟩, h⟩ := h
    obtain rfl := Except.ok.inj h
    exact { ih with
      valid := Configuration.valid_withAddress hvalid hvalid'
      address := haddress }

/-- What a constructed configuration satisfies. -/
structure Configuration.Shaped (c : Configuration) : Prop where
  valid : c.valid = true
  host : Short c.address.host
  credential : c.credential.Shaped
  transport : c.transport.Shaped
  serverName : Short c.tls.serverName
  methodShort : Short c.method
  method : c.method ≠ [] → c.protocol = .vmess ∨ c.protocol = .shadowsocks
  security : ∀ a ∈ c.advanced, a.security.Shaped
  hysteria : ∀ a ∈ c.advanced, ∀ h ∈ a.hysteria, h.Shaped

theorem AdmittedMethod.short {method : Bytes} (h : AdmittedMethod protocol method) :
    Short method := by
  rcases h with rfl | ⟨-, h⟩ | ⟨-, h⟩
  · exact short_nil
  · exact short_of_mem h (by decide)
  · exact short_of_mem h (by decide)

/-- **Every constructed configuration is well shaped.** -/
theorem Configuration.Built.shaped (h : c.Built unicode) : c.Shaped := by
  have hparts := h.parts
  refine ⟨hparts.valid, hparts.address.short, hparts.credential.shaped, hparts.transport.shaped,
    hparts.tls.short, hparts.method.short, ?_, fun a ha => (hparts.security a ha).shaped,
    fun a ha h hh => (hparts.hysteria a ha h hh).shaped⟩
  intro hne
  rcases hparts.method with hnil | ⟨hvmess, -⟩ | ⟨hshadowsocks, -⟩
  · exact absurd hnil hne
  · exact .inl hvmess
  · exact .inr hshadowsocks

end Egressfox.Endpoint
