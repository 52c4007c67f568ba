import Egressfox.Lib.Ascii
import Egressfox.Endpoint.Canonical

/-!
# What the canonical encoding determines

Every field of the encoding is written by a prefix-free code, so two equal encodings can
be compared field by field from the front.  Each section has a lemma of the form
`fields a ++ x = fields b ++ y → view a = view b ∧ x = y`, where the view of a part is
what the section lets one see of it, and `view_eq_of_canonical_eq` chains them.

Three places need an argument beyond peeling.  The domain string decides which sections
follow.  The service slot of version 3 holds the mode of an XHTTP transport and the
service of any other, so the transport is recovered from its kind.  And the sections that
are left out in an early version belong to fields that are empty there.
-/

namespace Egressfox.Endpoint

open Lib

/-! ## Fields -/

variable {x y : Bytes} {includeCredential : Bool} {c c' : Configuration}

theorem writeString_inj {a b : Bytes} (ha : Short a) (hb : Short b)
    (h : writeString a ++ x = writeString b ++ y) : a = b ∧ x = y :=
  prefixFree_lengthPrefixed (lt_of_le_of_lt ha (by norm_num)) (lt_of_le_of_lt hb (by norm_num)) h

theorem writeUint8_inj {a b : Byte} (h : writeUint8 a ++ x = writeUint8 b ++ y) :
    a = b ∧ x = y := prefixFree_byte trivial trivial h

theorem writeBool_inj {a b : Bool} (h : writeBool a ++ x = writeBool b ++ y) : a = b ∧ x = y := by
  obtain ⟨hcode, hrest⟩ := writeUint8_inj h
  refine ⟨?_, hrest⟩
  cases a <;> cases b <;> first | rfl | exact absurd hcode (by decide)

theorem writeUint16_inj {a b : Fin 65536} (h : writeUint16 a ++ x = writeUint16 b ++ y) :
    a = b ∧ x = y := by
  obtain ⟨hval, hrest⟩ := prefixFree_bigEndian 2 a.isLt b.isLt h
  exact ⟨Fin.ext hval, hrest⟩

theorem writeUint32_inj {a b : Int} (ha : 0 ≤ a ∧ a ≤ 100000) (hb : 0 ≤ b ∧ b ≤ 100000)
    (h : writeUint32 a ++ x = writeUint32 b ++ y) : a = b ∧ x = y := by
  obtain ⟨hval, hrest⟩ := prefixFree_bigEndian 4 (by norm_num; omega) (by norm_num; omega) h
  refine ⟨?_, hrest⟩
  rw [Int.emod_eq_of_lt ha.1 (by omega), Int.emod_eq_of_lt hb.1 (by omega)] at hval
  omega

theorem writeStrings_inj {l l' : List Bytes} (hlen : l.length < 256) (hlen' : l'.length < 256)
    (hl : ∀ v ∈ l, Short v) (hl' : ∀ v ∈ l', Short v)
    (h : writeStrings l ++ x = writeStrings l' ++ y) : l = l' ∧ x = y := by
  simp only [writeStrings, List.append_assoc] at h
  obtain ⟨hcount, h⟩ := writeUint8_inj h
  have hcount : l.length = l'.length := by
    have := congrArg Fin.val hcount
    simpa [Fin.ofNat, Nat.mod_eq_of_lt hlen, Nat.mod_eq_of_lt hlen'] using this
  have hfree : PrefixFree writeString Short := fun _ _ _ _ ha hb h => writeString_inj ha hb h
  exact hfree.flatMap hcount hl hl' h

/-! ## Views -/

/-- What is visible of Reality parameters: the short ID only with credentials. -/
def Reality.view (includeCredential : Bool) (r : Reality) : Reality :=
  if includeCredential then r else { r with shortID := [] }

/-- What is visible of the obfuscation password: without credentials only its presence. -/
def obfsView (includeCredential : Bool) (password : Option Bytes) : Option Bytes :=
  if includeCredential then password else password.map fun _ => []

/-- What is visible of Hysteria2 options. -/
def Hysteria2Options.view (includeCredential : Bool) (h : Hysteria2Options) : Hysteria2Options :=
  { h with obfsPassword := obfsView includeCredential h.obfsPassword }

/-- What is visible of security options. -/
def SecurityOptions.view (includeCredential : Bool) (s : SecurityOptions) : SecurityOptions :=
  { s with reality := s.reality.map (Reality.view includeCredential) }

/-- What is visible of an advanced part. -/
def AdvancedConnection.view (includeCredential : Bool) (a : AdvancedConnection) :
    AdvancedConnection :=
  ⟨a.flow, a.security.view includeCredential,
    a.hysteria.map (Hysteria2Options.view includeCredential)⟩

/-- What is visible of a credential: without credentials only its protocol. -/
def Credential.view (includeCredential : Bool) (c : Credential) : Credential :=
  if includeCredential then c else { protocol := c.protocol }

/-- What an encoding can tell about a configuration. -/
def Configuration.view (includeCredential : Bool) (c : Configuration) : Configuration :=
  { c with
    credential := c.credential.view includeCredential
    advanced := c.advanced.map (AdvancedConnection.view includeCredential) }

/-- With credentials everything is visible. -/
theorem Configuration.view_true (c : Configuration) : c.view true = c := by
  have hreality : Reality.view true = id := rfl
  have hhysteria : Hysteria2Options.view true = id := rfl
  have hadvanced : AdvancedConnection.view true = id := by
    funext a
    simp [AdvancedConnection.view, SecurityOptions.view, hreality, hhysteria]
  simp [Configuration.view, Credential.view, hadvanced]

/-! ## Sections -/

theorem realityFields_inj {r r' : Option Reality} (hr : ∀ v ∈ r, v.Shaped)
    (hr' : ∀ v ∈ r', v.Shaped)
    (h : realityFields includeCredential r ++ x = realityFields includeCredential r' ++ y) :
    r.map (Reality.view includeCredential) = r'.map (Reality.view includeCredential) ∧ x = y := by
  cases r with
  | none =>
    cases r' with
    | none =>
      obtain ⟨-, h⟩ := writeBool_inj h
      exact ⟨rfl, h⟩
    | some r' =>
      simp only [realityFields, List.append_assoc] at h
      exact absurd (writeBool_inj h).1 (by decide)
  | some r =>
    cases r' with
    | none =>
      simp only [realityFields, List.append_assoc] at h
      exact absurd (writeBool_inj h).1 (by decide)
    | some r' =>
      have hs := hr r rfl
      have hs' := hr' r' rfl
      simp only [realityFields, List.append_assoc] at h
      obtain ⟨-, h⟩ := writeBool_inj h
      obtain ⟨hkey, h⟩ := writeString_inj hs.publicKey hs'.publicKey h
      cases includeCredential with
      | false => exact ⟨by simp [Reality.view, hkey], h⟩
      | true =>
        obtain ⟨hid, h⟩ := writeString_inj hs.shortID hs'.shortID h
        refine ⟨?_, h⟩
        obtain ⟨publicKey, shortID⟩ := r
        simp_all

/-- The obfuscation password is written with credentials only, after its presence. -/
theorem obfsField_inj {o o' : Option Bytes} (ho : ∀ v ∈ o, v ≠ [] ∧ Short v)
    (ho' : ∀ v ∈ o', v ≠ [] ∧ Short v) (hpresent : o.isSome = o'.isSome)
    (h : obfsField includeCredential o ++ x = obfsField includeCredential o' ++ y) :
    obfsView includeCredential o = obfsView includeCredential o' ∧ x = y := by
  cases o with
  | none =>
    cases o' with
    | none => exact ⟨rfl, h⟩
    | some password' => cases hpresent
  | some password =>
    cases o' with
    | none => cases hpresent
    | some password' =>
      cases includeCredential with
      | false => exact ⟨rfl, h⟩
      | true =>
        obtain ⟨hpassword, h⟩ := writeString_inj (ho password rfl).2 (ho' password' rfl).2 h
        exact ⟨by rw [hpassword], h⟩

/-- The port ranges are written at the end of the encoding, so they are left open here. -/
theorem hysteriaFields_inj {o o' : Option Hysteria2Options} (ho : ∀ v ∈ o, v.Shaped)
    (ho' : ∀ v ∈ o', v.Shaped)
    (h : hysteriaFields includeCredential o ++ x = hysteriaFields includeCredential o' ++ y) :
    o.map (fun v => { v.view includeCredential with portRanges := [] }) =
      o'.map (fun v => { v.view includeCredential with portRanges := [] }) ∧ x = y := by
  cases o with
  | none =>
    cases o' with
    | none =>
      obtain ⟨-, h⟩ := writeBool_inj h
      exact ⟨rfl, h⟩
    | some v' =>
      simp only [hysteriaFields, List.append_assoc] at h
      exact absurd (writeBool_inj h).1 (by decide)
  | some v =>
    cases o' with
    | none =>
      simp only [hysteriaFields, List.append_assoc] at h
      exact absurd (writeBool_inj h).1 (by decide)
    | some v' =>
      have hs := ho v rfl
      have hs' := ho' v' rfl
      simp only [hysteriaFields, List.append_assoc] at h
      obtain ⟨-, h⟩ := writeBool_inj h
      obtain ⟨hup, h⟩ := writeUint32_inj hs.upMbps hs'.upMbps h
      obtain ⟨hdown, h⟩ := writeUint32_inj hs.downMbps hs'.downMbps h
      obtain ⟨hpresent, h⟩ := writeBool_inj h
      obtain ⟨hobfs, h⟩ := obfsField_inj hs.obfsPassword hs'.obfsPassword hpresent h
      exact ⟨by simp only [Hysteria2Options.view, Option.map_some, hup, hdown, hobfs], h⟩

theorem securityFields_inj {s s' : SecurityOptions} (hs : s.Shaped) (hs' : s'.Shaped)
    (h : securityFields includeCredential s ++ x = securityFields includeCredential s' ++ y) :
    s.view includeCredential = s'.view includeCredential ∧ x = y := by
  obtain ⟨alpn, fingerprint, reality⟩ := s
  obtain ⟨alpn', fingerprint', reality'⟩ := s'
  simp only [securityFields, List.append_assoc] at h
  obtain ⟨halpn, h⟩ := writeStrings_inj (lt_of_le_of_lt hs.alpn (by norm_num))
    (lt_of_le_of_lt hs'.alpn (by norm_num)) hs.alpnShort hs'.alpnShort h
  obtain ⟨hfingerprint, h⟩ := writeString_inj hs.fingerprint hs'.fingerprint h
  obtain ⟨hreality, h⟩ := realityFields_inj hs.reality hs'.reality h
  refine ⟨?_, h⟩
  simp only [SecurityOptions.view, SecurityOptions.mk.injEq]
  exact ⟨halpn, hfingerprint, hreality⟩

/-- The tail of port ranges is either empty or starts with its own domain string. -/
theorem portFields_inj {a a' : AdvancedConnection}
    (hpresent : a.hysteria.isSome = a'.hysteria.isSome)
    (ha : ∀ h ∈ a.hysteria, h.Shaped) (ha' : ∀ h ∈ a'.hysteria, h.Shaped)
    (h : portFields a = portFields a') :
    a.hysteria.map (·.portRanges) = a'.hysteria.map (·.portRanges) := by
  have hnonempty : ∀ l x : Bytes, writeString l ++ x ≠ [] := by
    intro l x hnil
    have hlength := congrArg List.length hnil
    simp [writeString, lengthPrefixed] at hlength
  unfold portFields at h
  cases hh : a.hysteria with
  | none =>
    rw [hh] at hpresent
    cases hh' : a'.hysteria with
    | none => rfl
    | some v' => rw [hh'] at hpresent; cases hpresent
  | some v =>
    rw [hh] at hpresent
    cases hh' : a'.hysteria with
    | none => rw [hh'] at hpresent; cases hpresent
    | some v' =>
      have hs := ha v hh
      have hs' := ha' v' hh'
      simp only [hh, hh'] at h
      simp only [Option.map_some, Option.some.injEq]
      split_ifs at h with hempty hempty' hempty'
      · rw [hempty, hempty']
      · exact absurd h.symm (hnonempty _ _)
      · exact absurd h (hnonempty _ _)
      · have h := List.append_cancel_left h
        rw [← List.append_nil (writeStrings _), ← List.append_nil (writeStrings v'.portRanges)]
          at h
        exact (writeStrings_inj (lt_of_le_of_lt hs.portRanges (by norm_num))
          (lt_of_le_of_lt hs'.portRanges (by norm_num)) hs.portRangesShort
          hs'.portRangesShort h).1

/-! ## Transports -/

/-- An advanced transport is determined by its path, its host and its identity service. -/
theorem AdvancedTransport.eq_of_fields {kind : TransportKind} {a a' : AdvancedTransport}
    (ha : a.valid kind = true) (ha' : a'.valid kind = true)
    (hquic : kind = .quic → a.mode = []) (hquic' : kind = .quic → a'.mode = [])
    (hpath : a.path = a'.path) (hhost : a.host = a'.host)
    (hservice : (if kind = .xhttp then a.mode else a.service) =
      if kind = .xhttp then a'.mode else a'.service) : a = a' := by
  obtain ⟨path, host, service, mode⟩ := a
  obtain ⟨path', host', service', mode'⟩ := a'
  cases kind <;> simp_all [AdvancedTransport.valid]

/-- A valid transport is determined by the fields the encoding writes. -/
theorem Transport.eq_of_fields {t t' : Transport} (ht : t.valid = true) (ht' : t'.valid = true)
    (hs : t.Shaped) (hs' : t'.Shaped) (hkind : t.kind = t'.kind)
    (hwsPath : t.webSocketPathText = t'.webSocketPathText)
    (hwsHost : t.webSocketHost = t'.webSocketHost) (hpath : t.path = t'.path)
    (hhost : t.host = t'.host) (hservice : t.identityService = t'.identityService) : t = t' := by
  -- which of the three forms a transport has is decided by its kind
  rcases Transport.valid_iff.mp ht with h | ⟨p, hp, h⟩ | ⟨a, ha, h⟩ <;>
    rcases Transport.valid_iff.mp ht' with h' | ⟨p', hp', h'⟩ | ⟨a', ha', h'⟩
  · rw [h, h']
  · rw [h, h'] at hkind; cases hkind
  · rw [← hkind, h] at ha'; cases ha'
  · rw [h, h'] at hkind; cases hkind
  · rw [h, h'] at hwsPath
    rw [h, h', hwsHost]
    exact congrArg (fun q => (⟨.webSocket, some q, t'.webSocketHost, none⟩ : Transport)) hwsPath
  · rw [← hkind, h] at ha'; cases ha'
  · rw [hkind, h'] at ha; cases ha
  · rw [hkind, h'] at ha; cases ha
  · have hmem : a ∈ t.advanced := by rw [h]; rfl
    have hmem' : a' ∈ t'.advanced := by rw [h']; rfl
    have haa : a = a' := by
      apply AdvancedTransport.eq_of_fields ha (hkind ▸ ha') (fun hq => hs.quic hq a hmem)
        (fun hq => hs'.quic (hkind ▸ hq) a' hmem')
      · rw [h, h'] at hpath
        exact hpath
      · rw [h, h'] at hhost
        exact hhost
      · rw [Transport.identityService, Transport.identityService, ← hkind, h, h'] at hservice
        exact hservice
    rw [h, h', hkind, haa]

/-! ## The whole encoding -/

namespace Configuration

/-- The three versions of the encoding. -/
theorem version_cases (c : Configuration) :
    c.version3 = true ∧ c.version2 = true ∨ c.version3 = false ∧ c.version2 = true ∨
      c.version3 = false ∧ c.version2 = false := by
  cases h3 : c.version3 with
  | true => exact .inl ⟨rfl, by simp [version2, h3]⟩
  | false =>
    cases h2 : c.version2 with
    | true => exact .inr (.inl ⟨rfl, rfl⟩)
    | false => exact .inr (.inr ⟨rfl, rfl⟩)

/-- The domain string tells the versions apart. -/
theorem version_eq_of_domain_eq (h : c.domain includeCredential = c'.domain includeCredential) :
    c.version3 = c'.version3 ∧ c.version2 = c'.version2 := by
  unfold domain at h
  rcases version_cases c with ⟨h3, h2⟩ | ⟨h3, h2⟩ | ⟨h3, h2⟩ <;>
    rcases version_cases c' with ⟨h3', h2'⟩ | ⟨h3', h2'⟩ | ⟨h3', h2'⟩ <;>
    rw [h3, h2, h3', h2'] at h <;> rw [h3, h2, h3', h2'] <;>
    cases includeCredential <;> first | exact ⟨rfl, rfl⟩ | exact absurd h (by decide)

theorem short_domain (c : Configuration) (includeCredential : Bool) :
    Short (c.domain includeCredential) := by
  unfold domain Short
  split_ifs <;> decide

/-- The fields that every version writes. -/
structure SameHeader (c c' : Configuration) : Prop where
  protocol : c.protocol = c'.protocol
  address : c.address = c'.address
  kind : c.transport.kind = c'.transport.kind
  webSocketPath : c.transport.webSocketPathText = c'.transport.webSocketPathText
  tls : c.tls = c'.tls

theorem headerFields_inj (hc : c.Shaped) (hc' : c'.Shaped)
    (h : c.headerFields ++ x = c'.headerFields ++ y) : c.SameHeader c' ∧ x = y := by
  simp only [headerFields, List.append_assoc] at h
  obtain ⟨hprotocol, h⟩ := writeUint8_inj h
  obtain ⟨hhostKind, h⟩ := writeUint8_inj h
  obtain ⟨hhost, h⟩ := writeString_inj hc.host hc'.host h
  obtain ⟨hport, h⟩ := writeUint16_inj h
  obtain ⟨hkind, h⟩ := writeUint8_inj h
  obtain ⟨hpath, h⟩ := writeString_inj hc.transport.webSocketPath hc'.transport.webSocketPath h
  obtain ⟨henabled, h⟩ := writeBool_inj h
  obtain ⟨hname, h⟩ := writeString_inj hc.serverName hc'.serverName h
  obtain ⟨hinsecure, h⟩ := writeBool_inj h
  refine ⟨⟨Protocol.code_injective hprotocol, ?_, TransportKind.code_injective hkind, hpath, ?_⟩, h⟩
  · exact Address.ext hhost hport (HostKind.code_injective hhostKind)
  · exact TLSConfig.ext henabled hname hinsecure

/-- Below version 2 there is neither a WebSocket host nor a method. -/
theorem Shaped.of_not_version2 (hc : c.Shaped) (h : c.version2 = false) :
    c.transport.webSocketHost = [] ∧ c.method = [] := by
  simp only [version2, Bool.or_eq_false_iff, decide_eq_false_iff_not, not_not] at h
  obtain ⟨⟨⟨-, hvmess⟩, hshadowsocks⟩, hhost⟩ := h
  refine ⟨hhost, ?_⟩
  by_contra hmethod
  rcases hc.method hmethod with hp | hp
  · exact hvmess hp
  · exact hshadowsocks hp

theorem methodFields_inj (hc : c.Shaped) (hc' : c'.Shaped) (hversion : c.version2 = c'.version2)
    (h : c.methodFields ++ x = c'.methodFields ++ y) :
    c.transport.webSocketHost = c'.transport.webSocketHost ∧ c.method = c'.method ∧ x = y := by
  unfold methodFields at h
  cases hv : c.version2 with
  | false =>
    have hv' : c'.version2 = false := hversion ▸ hv
    obtain ⟨hhost, hmethod⟩ := hc.of_not_version2 hv
    obtain ⟨hhost', hmethod'⟩ := hc'.of_not_version2 hv'
    simp only [hv, hv'] at h
    exact ⟨hhost.trans hhost'.symm, hmethod.trans hmethod'.symm, h⟩
  | true =>
    have hv' : c'.version2 = true := hversion ▸ hv
    simp only [hv, hv', if_true, List.append_assoc] at h
    obtain ⟨hhost, h⟩ :=
      writeString_inj hc.transport.webSocketHost hc'.transport.webSocketHost h
    obtain ⟨hmethod, h⟩ := writeString_inj hc.methodShort hc'.methodShort h
    exact ⟨hhost, hmethod, h⟩

/-- What version 3 adds: the fields of the advanced transport and the advanced part, the
port ranges apart. -/
theorem advancedFields_inj {t t' : Transport} {a a' : AdvancedConnection}
    (ht : ∀ v ∈ t.advanced, v.Shaped) (ht' : ∀ v ∈ t'.advanced, v.Shaped) (hs : a.security.Shaped)
    (hs' : a'.security.Shaped) (hh : ∀ v ∈ a.hysteria, v.Shaped) (hh' : ∀ v ∈ a'.hysteria, v.Shaped)
    (h : advancedFields includeCredential t a ++ x = advancedFields includeCredential t' a' ++ y) :
    (t.path = t'.path ∧ t.host = t'.host ∧ t.identityService = t'.identityService) ∧
      (a.flow = a'.flow ∧ a.security.view includeCredential = a'.security.view includeCredential ∧
        a.hysteria.map (fun v => { v.view includeCredential with portRanges := [] }) =
          a'.hysteria.map (fun v => { v.view includeCredential with portRanges := [] })) ∧
      x = y := by
  have hshort : ∀ {t : Transport}, (∀ v ∈ t.advanced, v.Shaped) →
      Short t.path ∧ Short t.host ∧ Short t.identityService := by
    intro t ht
    unfold Transport.identityService Transport.path Transport.host Transport.mode Transport.service
    cases hadvanced : t.advanced with
    | none => exact ⟨short_nil, short_nil, by split <;> exact short_nil⟩
    | some v =>
      have hv := ht v hadvanced
      refine ⟨hv.path, hv.host, ?_⟩
      split
      · exact hv.mode
      · exact hv.service
  obtain ⟨hpath, hhost, hservice⟩ := hshort ht
  obtain ⟨hpath', hhost', hservice'⟩ := hshort ht'
  simp only [advancedFields, List.append_assoc] at h
  obtain ⟨epath, h⟩ := writeString_inj hpath hpath' h
  obtain ⟨ehost, h⟩ := writeString_inj hhost hhost' h
  obtain ⟨eservice, h⟩ := writeString_inj hservice hservice' h
  obtain ⟨eflow, h⟩ := writeUint8_inj h
  obtain ⟨esecurity, h⟩ := securityFields_inj hs hs' h
  obtain ⟨ehysteria, h⟩ := hysteriaFields_inj hh hh' h
  exact ⟨⟨epath, ehost, eservice⟩, ⟨VLESSFlow.code_injective eflow, esecurity, ehysteria⟩, h⟩

/-- The credential section, when it is written. -/
theorem credentialFields_inj {version3 : Bool} {c c' : Credential} {secret secret' : Bytes}
    (hc : c.Shaped) (hc' : c'.Shaped) (hsecret : secret ∈ c.secret) (hsecret' : secret' ∈ c'.secret)
    (husername : version3 = false → c.username = c'.username)
    (h : credentialFields version3 c.protocol secret c.username ++ x =
      credentialFields version3 c'.protocol secret' c'.username ++ y)
    : c = c' ∧ x = y := by
  simp only [credentialFields, List.append_assoc] at h
  obtain ⟨eprotocol, h⟩ := writeUint8_inj h
  obtain ⟨esecret, h⟩ := writeString_inj (hc.secret _ hsecret) (hc'.secret _ hsecret') h
  have hrest : c.username = c'.username ∧ x = y := by
    cases version3 with
    | false => exact ⟨husername rfl, h⟩
    | true => exact writeString_inj hc.username hc'.username h
  refine ⟨Credential.ext (Protocol.code_injective eprotocol) ?_ hrest.1, hrest.2⟩
  rw [Option.mem_def.mp hsecret, Option.mem_def.mp hsecret', esecret]

/-- Below version 3 a credential has no username. -/
theorem Shaped.username_eq_nil (hc : c.Shaped) (h : c.version3 = false) :
    c.credential.username = [] := by
  have hchecked := checked_of_valid hc.valid
  rw [hchecked.version3_eq, Option.isSome_eq_false_iff, Option.isNone_iff_eq_none] at h
  obtain ⟨-, hsocks, hhttp⟩ := hchecked.of_advanced_none h
  by_contra hne
  rcases hc.credential.proxy hne with hp | hp <;> rw [hchecked.credentialProtocol] at hp
  · exact hsocks hp
  · exact hhttp hp

/-- The credential section, written or not. -/
theorem credentialSection_inj {secret secret' : Bytes} (hc : c.Shaped) (hc' : c'.Shaped)
    (hprotocol : c.protocol = c'.protocol) (hversion3 : c.version3 = c'.version3)
    (hsecret : secret ∈ c.credential.secret) (hsecret' : secret' ∈ c'.credential.secret)
    (h : (if includeCredential then credentialFields c.version3 c.credential.protocol secret
      c.credential.username else []) ++ x =
        (if includeCredential then credentialFields c'.version3 c'.credential.protocol secret'
          c'.credential.username else []) ++ y) :
    c.credential.view includeCredential = c'.credential.view includeCredential ∧ x = y := by
  cases includeCredential with
  | false =>
    refine ⟨?_, h⟩
    have hsame : c.credential.protocol = c'.credential.protocol := by
      rw [(checked_of_valid hc.valid).credentialProtocol, hprotocol,
        (checked_of_valid hc'.valid).credentialProtocol]
    exact congrArg (fun p => ({ protocol := p } : Credential)) hsame
  | true =>
    rw [if_pos rfl, if_pos rfl, ← hversion3] at h
    have husername : c.version3 = false → c.credential.username = c'.credential.username := by
      intro hv
      rw [hc.username_eq_nil hv, hc'.username_eq_nil (hversion3 ▸ hv)]
    exact credentialFields_inj hc.credential hc'.credential hsecret hsecret' husername h

/-- The visible Hysteria2 options, from the two places where they are written. -/
theorem hysteria_view_eq {o o' : Option Hysteria2Options}
    (hfields : o.map (fun v => { v.view includeCredential with portRanges := [] }) =
      o'.map (fun v => { v.view includeCredential with portRanges := [] }))
    (hports : o.map (·.portRanges) = o'.map (·.portRanges)) :
    o.map (Hysteria2Options.view includeCredential) =
      o'.map (Hysteria2Options.view includeCredential) := by
  cases o with
  | none =>
    cases o' with
    | none => rfl
    | some v' => cases hports
  | some v =>
    cases o' with
    | none => cases hports
    | some v' =>
      simp only [Option.map_some, Option.some.injEq, Hysteria2Options.view,
        Hysteria2Options.mk.injEq, and_true] at hfields hports ⊢
      exact ⟨hfields.1, hfields.2.1, hfields.2.2, hports⟩

/-- **The encoding determines everything it may show.** -/
theorem view_eq_of_canonical_eq (hc : c.Shaped) (hc' : c'.Shaped)
    (h : c.canonicalConfiguration includeCredential = c'.canonicalConfiguration includeCredential) :
    c.view includeCredential = c'.view includeCredential := by
  have hchecked := checked_of_valid hc.valid
  have hchecked' := checked_of_valid hc'.valid
  obtain ⟨secret, hsecret, heq⟩ := hchecked.canonicalConfiguration_eq includeCredential
  obtain ⟨secret', hsecret', heq'⟩ := hchecked'.canonicalConfiguration_eq includeCredential
  rw [heq, heq'] at h
  obtain ⟨hdomain, h⟩ := writeString_inj (short_domain c _) (short_domain c' _) (Option.some.inj h)
  obtain ⟨hversion3, hversion2⟩ := version_eq_of_domain_eq hdomain
  obtain ⟨hheader, h⟩ := headerFields_inj hc hc' h
  obtain ⟨hwsHost, hmethod, h⟩ := methodFields_inj hc hc' hversion2 h
  have hsome : c.advanced.isSome = c'.advanced.isSome := by
    rw [← hchecked.version3_eq, ← hchecked'.version3_eq, hversion3]
  cases hadvanced : c.advanced with
  | none =>
    have hadvanced' : c'.advanced = none := by
      rw [hadvanced] at hsome
      exact Option.isNone_iff_eq_none.mp (by simpa using hsome.symm)
    rw [hadvanced, hadvanced'] at h
    obtain ⟨hview, -⟩ :=
      credentialSection_inj hc hc' hheader.protocol hversion3 hsecret hsecret' h
    have hnone := (hchecked.of_advanced_none hadvanced).1
    have hnone' := (hchecked'.of_advanced_none hadvanced').1
    have htransport : c.transport = c'.transport := by
      apply Transport.eq_of_fields hchecked.transport hchecked'.transport hc.transport
        hc'.transport hheader.kind hheader.webSocketPath hwsHost
      all_goals simp only [Transport.path, Transport.host, Transport.identityService,
        Transport.mode, Transport.service, hnone, hnone', hheader.kind]
    simp only [view, hadvanced, hadvanced', hheader.protocol, hheader.address, hview, htransport,
      hheader.tls, hmethod, Option.map_none]
  | some a =>
    obtain ⟨a', hadvanced'⟩ : ∃ a', c'.advanced = some a' := by
      rw [hadvanced] at hsome
      exact Option.isSome_iff_exists.mp hsome.symm
    rw [hadvanced, hadvanced'] at h
    obtain ⟨⟨hpath, hhost, hservice⟩, ⟨hflow, hsecurity, hhysteria⟩, h⟩ :=
      advancedFields_inj hc.transport.advanced hc'.transport.advanced
        (hc.security a hadvanced) (hc'.security a' hadvanced') (hc.hysteria a hadvanced)
        (hc'.hysteria a' hadvanced') h
    obtain ⟨hview, h⟩ :=
      credentialSection_inj hc hc' hheader.protocol hversion3 hsecret hsecret' h
    have hpresent : a.hysteria.isSome = a'.hysteria.isSome := by
      have := congrArg Option.isSome hhysteria
      simpa only [Option.isSome_map] using this
    have hports := portFields_inj hpresent (hc.hysteria a hadvanced) (hc'.hysteria a' hadvanced') h
    have htransport : c.transport = c'.transport :=
      Transport.eq_of_fields hchecked.transport hchecked'.transport hc.transport hc'.transport
        hheader.kind hheader.webSocketPath hwsHost hpath hhost hservice
    simp only [view, hadvanced, hadvanced', hheader.protocol, hheader.address, hview, htransport,
      hheader.tls, hmethod, Option.map_some, AdvancedConnection.view, hflow, hsecurity,
      hysteria_view_eq hhysteria hports]

/-- **The encoding shows nothing else.** -/
theorem canonicalConfiguration_view (c : Configuration) (includeCredential : Bool) :
    (c.view includeCredential).canonicalConfiguration includeCredential =
      c.canonicalConfiguration includeCredential := by
  cases includeCredential with
  | true => rw [view_true]
  | false =>
    obtain ⟨protocol, address, credential, transport, tls, method, advanced⟩ := c
    cases advanced with
    | none => rfl
    | some a =>
      obtain ⟨flow, ⟨alpn, fingerprint, reality⟩, hysteria⟩ := a
      cases reality <;> cases hysteria with
      | none => rfl
      | some v =>
        obtain ⟨up, down, obfs, ports⟩ := v
        cases obfs <;> rfl

/-- The configuration with its four secrets removed: the credential's secret and username,
the Reality short ID, and the value of the obfuscation password, whose presence stays. -/
def redact (c : Configuration) : Configuration :=
  { c with
    credential := { protocol := c.credential.protocol }
    advanced := c.advanced.map fun a =>
      { a with
        security := { a.security with
          reality := a.security.reality.map fun r => { r with shortID := [] } }
        hysteria := a.hysteria.map fun h =>
          { h with obfsPassword := h.obfsPassword.map fun _ => [] } } }

theorem redact_eq_view (c : Configuration) : c.redact = c.view false := rfl

/-- The version of the endpoint ID depends on public fields only. -/
theorem idVersion_redact (c : Configuration) : c.redact.idVersion = c.idVersion := by
  obtain ⟨protocol, address, credential, transport, tls, method, advanced⟩ := c
  cases advanced <;> rfl

/-- **The pre-image of the endpoint ID is the redacted configuration**: it can be computed,
and for two constructed configurations it is the same exactly if they agree in everything
but their secrets. -/
theorem idPreimage_eq_iff_redact_eq {unicode : Unicode} {c c' : Configuration}
    (hc : c.Built unicode) (hc' : c'.Built unicode) :
    ∃ logical logical', c.canonicalConfiguration false = some logical ∧
      c'.canonicalConfiguration false = some logical' ∧
      ((c.idVersion, logical) = (c'.idVersion, logical') ↔ c.redact = c'.redact) := by
  obtain ⟨logical, hlogical⟩ := Option.isSome_iff_exists.mp
    (canonicalConfiguration_isSome hc.shaped.valid false)
  obtain ⟨logical', hlogical'⟩ := Option.isSome_iff_exists.mp
    (canonicalConfiguration_isSome hc'.shaped.valid false)
  refine ⟨logical, logical', hlogical, hlogical', ?_⟩
  rw [Prod.mk.injEq]
  constructor
  · rintro ⟨-, hbytes⟩
    rw [redact_eq_view, redact_eq_view]
    apply view_eq_of_canonical_eq hc.shaped hc'.shaped
    rw [hlogical, hlogical', hbytes]
  · intro hredact
    constructor
    · rw [← idVersion_redact, hredact, idVersion_redact]
    · apply Option.some.inj
      rw [← hlogical, ← hlogical', ← canonicalConfiguration_view, ← canonicalConfiguration_view c',
        ← redact_eq_view, ← redact_eq_view, hredact]

end Configuration

/-! ## Two revisions of one endpoint -/

namespace Sample

def unicode : Unicode := ⟨id, id, fun _ => false⟩

theorem keepsNumerals : unicode.KeepsNumerals := by
  intro rune hrune
  simp only [unicode, id_eq]
  omega

def address : Address := ⟨ascii "a.example", 443, .dns⟩

theorem address_built : address.Built unicode :=
  .new (show newAddress unicode (ascii "A.example.") 443 = .ok address from rfl)

def tls : TLSConfig := ⟨true, [], false⟩

theorem tls_built : tls.Built unicode :=
  .new (show newTLS unicode [] false = .ok tls from rfl)

/-- A Hysteria2 connection with the given password, used for obfuscation as well. -/
def hysteria (password : Bytes) : Configuration where
  protocol := .hysteria2
  address := address
  credential := ⟨.hysteria2, some password, []⟩
  transport := newQUICTransport
  tls := tls.resolve address
  advanced := some ⟨.none, {}, some ⟨0, 0, some password, [ascii "443", ascii "8000:8010"]⟩⟩

theorem hysteria_built {password : Bytes}
    (hcredential : newHysteria2Credential password = .ok ⟨.hysteria2, some password, []⟩)
    (hoptions : newHysteria2OptionsWithPorts 0 0 password [ascii "443", ascii "8000:8010"] =
      .ok ⟨0, 0, some password, [ascii "443", ascii "8000:8010"]⟩)
    (h : newExtendedConfiguration .hysteria2 address ⟨.hysteria2, some password, []⟩
      newQUICTransport tls {} .none
      (some ⟨0, 0, some password, [ascii "443", ascii "8000:8010"]⟩) = .ok (hysteria password)) :
    (hysteria password).Built unicode :=
  .extended address_built (.hysteria2 hcredential) .quic tls_built .zero
    (fun _ hh => Option.some.inj hh ▸ .withPorts hoptions) h

theorem hysteria_old_built : (hysteria (ascii "old")).Built unicode :=
  hysteria_built rfl (by decide +kernel) (by decide +kernel)

theorem hysteria_new_built : (hysteria (ascii "new")).Built unicode :=
  hysteria_built rfl (by decide +kernel) (by decide +kernel)

/-- Changing the passwords changes the configuration and not the pre-image of its ID. -/
theorem idPreimage_eq_hysteria : hysteria (ascii "old") ≠ hysteria (ascii "new") ∧
    ∃ logical logical', (hysteria (ascii "old")).canonicalConfiguration false = some logical ∧
      (hysteria (ascii "new")).canonicalConfiguration false = some logical' ∧
      ((hysteria (ascii "old")).idVersion, logical) =
        ((hysteria (ascii "new")).idVersion, logical') := by
  refine ⟨by decide, ?_⟩
  obtain ⟨logical, logical', h, h', heq⟩ :=
    Configuration.idPreimage_eq_iff_redact_eq hysteria_old_built hysteria_new_built
  exact ⟨logical, logical', h, h', heq.mpr rfl⟩

end Sample

end Egressfox.Endpoint
