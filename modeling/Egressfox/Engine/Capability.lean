import Egressfox.Endpoint.Inventory
import Egressfox.Endpoint.Renew
import Egressfox.Observation.Model

/-!
# The capability gate of the engines

`AssessEndpoint` and `CheckEndpoint` of `internal/engine/renderer.go`, which both renderers and
the probes ask before they use a configuration.

`checkEndpoint_iff` says once which configurations are accepted.  Every protocol admits few
combinations of transport and security, which are listed below it.
-/

namespace Egressfox.Engine

open Lib Endpoint
open Artifact (Profile mihomo11931 singBox1141)

/-- `BuildSupport`. -/
inductive BuildSupport where
  | unverified
  | available
  | unavailable
deriving DecidableEq, Repr

structure Assessment where
  build : BuildSupport := .unverified
  implemented : Bool := false
  field : String := ""
  feature : String := ""
deriving DecidableEq, Repr

/-- `NamedRecord`: a record and the name it has in the rendered configuration. -/
structure NamedRecord where
  name : Bytes
  record : Record
deriving DecidableEq, Repr

/-- The errors of a renderer: that of an invalid configuration, and `CapabilityError`. -/
inductive CheckError where
  | configuration (error : Endpoint.Error)
  | capability (profile : Profile) (field feature : String)
deriving DecidableEq, Repr

/-- A form that the build has and EgressFox implements. -/
def supported : Assessment := { build := .available, implemented := true }

/-- A form that the build has and EgressFox does not implement. -/
def withheld (field feature : String) : Assessment :=
  { build := .available, implemented := false, field := field, feature := feature }

/-- The part of `AssessEndpoint` on the transport. -/
def assessTransport (profile : Profile) (c : Configuration) : Assessment :=
  match c.transport.kind with
  | .tcp | .webSocket => supported
  | .http2 | .grpc | .httpUpgrade =>
    if c.protocol ≠ .vless || !c.tls.enabled then
      withheld "endpoint.transport" (c.transport.kind.string)
    else supported
  | .xhttp =>
    if profile = singBox1141 then
      { withheld "endpoint.transport" "xhttp" with build := .unavailable }
    else if c.protocol ≠ .vless || !c.tls.enabled then
      withheld "endpoint.transport" "xhttp_protocol"
    else supported
  | .unknown | .quic =>
    { withheld "endpoint.transport" (c.transport.kind.string) with
      build := .unverified }

/-- The part of `AssessEndpoint` behind the switch over the protocol. -/
def assessConnection (profile : Profile) (c : Configuration) : Assessment :=
  let security := c.securityOptions
  let direct := decide (c.protocol = .vless) && decide (c.transport.kind = .tcp)
  if security.reality ≠ none then
    if direct && c.flow = .vision then supported
    else withheld "endpoint.security" "reality_transport"
  else if c.flow ≠ .none then withheld "endpoint.flow" "vision"
  else if security.fingerprint ≠ [] && !direct then
    withheld "endpoint.security" "client_fingerprint"
  else if security.alpn.length ≠ 0 && !direct then withheld "endpoint.security" "alpn"
  else assessTransport profile c

/-- `AssessEndpoint`. -/
def assessEndpoint (profile : Profile) (c : Configuration) : Except Endpoint.Error Assessment :=
  if !c.valid then invalid "configuration" "contains invalid connection semantics"
  else if profile ≠ mihomo11931 && profile ≠ singBox1141 then
    .ok { build := .unverified, field := "engine.profile", feature := "unqualified_profile" }
  else if c.protocol = .hysteria2 then
    if c.securityOptions.fingerprint ≠ [] then
      .ok (withheld "endpoint.security" "hysteria2_client_fingerprint")
    else .ok supported
  else .ok (assessConnection profile c)

/-- `CheckEndpoint`. -/
def checkEndpoint (profile : Profile) (c : Configuration) : Except CheckError Unit :=
  match assessEndpoint profile c with
  | .error error => .error (.configuration error)
  | .ok assessment =>
    if assessment.implemented && assessment.build = .available then .ok ()
    else .error (.capability profile assessment.field assessment.feature)

/-! ## What is accepted -/

/-- A VLESS connection over plain TCP, the only one with security options. -/
def Direct (c : Configuration) : Prop := c.protocol = .vless ∧ c.transport.kind = .tcp

/-- A transport the gate lets through. -/
def AcceptedTransport (profile : Profile) (c : Configuration) : Prop :=
  c.transport.kind = .tcp ∨ c.transport.kind = .webSocket ∨
    (c.transport.kind = .http2 ∨ c.transport.kind = .grpc ∨ c.transport.kind = .httpUpgrade ∨
      c.transport.kind = .xhttp ∧ profile ≠ singBox1141) ∧
      c.protocol = .vless ∧ c.tls.enabled = true

/-- A connection other than Hysteria2 that the gate lets through. -/
def AcceptedConnection (profile : Profile) (c : Configuration) : Prop :=
  (c.securityOptions.reality ≠ none ∧ Direct c ∧ c.flow = .vision) ∨
  (c.securityOptions.reality = none ∧ c.flow = .none ∧
    (c.securityOptions.fingerprint ≠ [] → Direct c) ∧
    (c.securityOptions.alpn ≠ [] → Direct c) ∧ AcceptedTransport profile c)

theorem assessTransport_implemented_iff {profile : Profile} {c : Configuration} :
    ((assessTransport profile c).implemented && (assessTransport profile c).build = .available) =
      true ↔ AcceptedTransport profile c := by
  unfold assessTransport AcceptedTransport
  cases hkind : c.transport.kind with
  | tcp | webSocket => simp [supported]
  | unknown | quic => simp [withheld]
  | xhttp =>
    by_cases hprofile : profile = singBox1141
    · simp [withheld, hprofile]
    · by_cases hvless : c.protocol = .vless <;> cases c.tls.enabled <;>
        simp [withheld, supported, hprofile, hvless]
  | http2 | grpc | httpUpgrade =>
    by_cases hvless : c.protocol = .vless <;> cases c.tls.enabled <;>
      simp [withheld, supported, hvless]

theorem assessConnection_implemented_iff {profile : Profile} {c : Configuration} :
    ((assessConnection profile c).implemented &&
      (assessConnection profile c).build = .available) = true ↔ AcceptedConnection profile c := by
  have hdirect : (decide (c.protocol = .vless) && decide (c.transport.kind = .tcp)) = true ↔
      Direct c := by
    simp [Direct]
  unfold assessConnection AcceptedConnection
  generalize (decide (c.protocol = .vless) && decide (c.transport.kind = .tcp)) = direct at hdirect
  by_cases hreality : c.securityOptions.reality = none
  · simp only [hreality, ne_eq, not_true_eq_false, if_false, false_and, true_and, false_or]
    by_cases hflow : c.flow = .none
    · simp only [hflow, not_true_eq_false, if_false, true_and]
      split_ifs with hfingerprint halpn
      · simp only [Bool.and_eq_true, decide_eq_true_eq, Bool.not_eq_true'] at hfingerprint
        have hnot : ¬Direct c := fun h => by
          rw [hdirect.mpr h] at hfingerprint
          cases hfingerprint.2
        simp [withheld, hfingerprint.1, hnot]
      · simp only [Bool.and_eq_true, decide_eq_true_eq, Bool.not_eq_true',
          List.length_eq_zero_iff] at halpn
        have hnot : ¬Direct c := fun h => by
          rw [hdirect.mpr h] at halpn
          cases halpn.2
        simp [withheld, halpn.1, hnot]
      · simp only [Bool.and_eq_true, decide_eq_true_eq, Bool.not_eq_true',
          List.length_eq_zero_iff, not_and, Bool.not_eq_false] at hfingerprint halpn
        rw [assessTransport_implemented_iff]
        constructor
        · intro h
          exact ⟨fun hne => hdirect.mp (hfingerprint hne), fun hne => hdirect.mp (halpn hne), h⟩
        · rintro ⟨-, -, h⟩
          exact h
    · simp [hflow, withheld]
  · by_cases hd : Direct c
    · rw [hdirect.mpr hd]
      by_cases hflow : c.flow = .vision <;> simp [hreality, hflow, hd, supported, withheld]
    · have hfalse : direct = false := by
        cases direct with
        | false => rfl
        | true => exact absurd (hdirect.mp rfl) hd
      simp [hreality, hfalse, hd, withheld]

/-- **What `CheckEndpoint` accepts**: a valid configuration, for one of the two profiles, with an
accepted combination of protocol, transport and security. -/
theorem checkEndpoint_iff {profile : Profile} {c : Configuration} :
    checkEndpoint profile c = .ok () ↔
      c.valid = true ∧ (profile = mihomo11931 ∨ profile = singBox1141) ∧
        (c.protocol = .hysteria2 ∧ c.securityOptions.fingerprint = [] ∨
          c.protocol ≠ .hysteria2 ∧ AcceptedConnection profile c) := by
  unfold checkEndpoint assessEndpoint
  by_cases hvalid : c.valid = true
  · by_cases hprofile : profile = mihomo11931 ∨ profile = singBox1141
    · have hknown : ¬(decide (profile ≠ mihomo11931) && decide (profile ≠ singBox1141)) = true := by
        rcases hprofile with rfl | rfl <;> simp
      rw [if_neg (by simp [hvalid]), if_neg hknown]
      by_cases hprotocol : c.protocol = .hysteria2
      · by_cases hfingerprint : c.securityOptions.fingerprint = []
        · simp [hvalid, hprofile, hprotocol, hfingerprint, supported]
        · simp [hprotocol, hfingerprint, withheld]
      · rw [if_neg hprotocol]
        simp only [hvalid, hprofile, hprotocol, false_and, false_or, true_and, ne_eq,
          not_false_eq_true]
        rw [← assessConnection_implemented_iff]
        split_ifs with himplemented
        · simp [himplemented]
        · simp [himplemented]
    · have hunknown : (decide (profile ≠ mihomo11931) &&
          decide (profile ≠ singBox1141)) = true := by
        simpa using hprofile
      rw [if_neg (by simp [hvalid]), if_pos hunknown]
      simp [hprofile]
  · simp [hvalid, invalid]

/-- **The engines differ in XHTTP only**: what is accepted for sing-box is accepted for Mihomo. -/
theorem singBox_accepts_iff {c : Configuration} : checkEndpoint singBox1141 c = .ok () ↔
    checkEndpoint mihomo11931 c = .ok () ∧ c.transport.kind ≠ .xhttp := by
  have hprofile : mihomo11931 ≠ singBox1141 := by decide
  have hquic (h : c.valid = true) (hp : c.protocol = .hysteria2) : c.transport.kind = .quic :=
    ((Configuration.optionsConsistent_of_valid h).hysteria hp).1
  simp only [checkEndpoint_iff, AcceptedConnection, AcceptedTransport, Direct]
  cases hkind : c.transport.kind <;> simp_all

/-! ## The combinations, by protocol -/

section Accepted

variable {unicode : Unicode} {profile : Profile} {c : Configuration}

/-- Without the exceptions for direct VLESS there are no security options. -/
theorem AcceptedConnection.plain (h : AcceptedConnection profile c)
    (hprotocol : c.protocol ≠ .vless) :
    c.securityOptions = {} ∧ c.flow = .none ∧
      (c.transport.kind = .tcp ∨ c.transport.kind = .webSocket) := by
  rcases h with ⟨-, hdirect, -⟩ | ⟨hreality, hflow, hfingerprint, halpn, htransport⟩
  · exact absurd hdirect.1 hprotocol
  · refine ⟨?_, hflow, ?_⟩
    · have hfingerprint : c.securityOptions.fingerprint = [] := by
        by_contra hne
        exact hprotocol (hfingerprint hne).1
      have halpn : c.securityOptions.alpn = [] := by
        by_contra hne
        exact hprotocol (halpn hne).1
      generalize c.securityOptions = s at hreality hfingerprint halpn
      obtain ⟨alpn, fingerprint, reality⟩ := s
      subst hreality hfingerprint halpn
      rfl
    · rcases htransport with htcp | hws | ⟨-, hvless, -⟩
      · exact .inl htcp
      · exact .inr hws
      · exact absurd hvless hprotocol

/-- QUIC is for Hysteria2 only. -/
theorem AcceptedConnection.kind_ne_quic (h : AcceptedConnection profile c) :
    c.transport.kind ≠ .quic := by
  rcases h with ⟨-, ⟨-, hk⟩, -⟩ | ⟨-, -, -, -, hk | hk | ⟨hk | hk | hk | ⟨hk, -⟩, -⟩⟩
  all_goals
    rw [hk]
    decide

/-- Accepted is QUIC exactly with Hysteria2. -/
theorem kind_eq_quic_iff (hnormal : c.Normal unicode) (h : checkEndpoint profile c = .ok ()) :
    c.transport.kind = .quic ↔ c.protocol = .hysteria2 := by
  obtain ⟨-, -, ⟨hp, -⟩ | ⟨hp, haccepted⟩⟩ := checkEndpoint_iff.mp h
  · exact ⟨fun _ => hp, fun hp => (hnormal.options.hysteria hp).1⟩
  · exact ⟨fun hk => absurd hk haccepted.kind_ne_quic, fun h => absurd h hp⟩

/-- An accepted Trojan or VMess connection has no advanced part. -/
theorem AcceptedConnection.advanced_eq_none (h : AcceptedConnection profile c)
    (hnormal : c.Normal unicode) (hprotocol : c.protocol = .trojan ∨ c.protocol = .vmess) :
    c.advanced = none := by
  have hne : c.protocol ≠ .vless ∧ c.protocol ≠ .hysteria2 := by
    rcases hprotocol with hp | hp <;> rw [hp] <;> decide
  obtain ⟨hsecurity, hflow, hkind⟩ := h.plain hne.1
  have htransport : c.transport.advanced = none := by
    rcases Transport.valid_iff.mp hnormal.checked.transport with ht | ⟨path, -, ht⟩ | ⟨a, ha, ht⟩
    · rw [ht]
    · rw [ht]
    · rcases hkind with hkind | hkind
      · rw [hkind] at ha
        cases ha
      · rw [hkind] at ha
        cases ha
  cases hadvanced : c.advanced with
  | none => rfl
  | some a =>
    have hhysteria := hnormal.options.noHysteria hne.2
    rw [Configuration.securityOptions, hadvanced] at hsecurity
    rw [Configuration.flow, hadvanced] at hflow
    rw [Configuration.hysteria2, hadvanced] at hhysteria
    have hold : isOldConnection c.transport a.security a.flow a.hysteria = true := by
      simp only [Option.map_some, Option.getD_some, Option.bind_some] at hsecurity hflow hhysteria
      simp [isOldConnection, htransport, hsecurity, hflow, hhysteria]
    obtain ⟨-, htrojan, hvmess⟩ := hnormal.advanced a hadvanced hold
    rcases hprotocol with hp | hp
    · exact absurd hp htrojan
    · exact absurd hp hvmess

end Accepted

end Egressfox.Engine
