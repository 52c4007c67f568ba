import Egressfox.Lib.Netip
import Egressfox.Endpoint.Identity

/-!
# Network addresses

`internal/endpoint/address.go` and `internal/endpoint/errors.go`.

A host is normalised once, when an address, a TLS server name or a transport host is
constructed: an IP address is rewritten in its canonical text, a DNS name loses one
trailing dot and is lower-cased.  `Reading` lists the ways in which a text without brackets
is read: as an IP address, as an IP address followed by a dot, or as a DNS name.  What is
kept of this for the encodings built on top is that a normalised host is short
(`length_normalizeHost`).
-/

namespace Egressfox.Endpoint

open Lib

/-- The errors of the package: `ValidationError` and `ConflictError`. -/
inductive Error where
  /-- A field violates the supported domain. -/
  | invalid (field problem : String)
  /-- One complete identity maps to incompatible configurations. -/
  | conflict (id : ID)
deriving DecidableEq, Repr

/-- `invalid`: the failed check of a field. -/
def invalid {α : Type} (field problem : String) : Except Error α := .error (.invalid field problem)

variable {field : String} {unicode : Unicode} {host text : Bytes} {kind : HostKind}

/-- A check that fails with an error is passed. -/
theorem ite_invalid_eq_ok {α : Type} {p : Prop} [Decidable p] {problem : String}
    {x : Except Error α} {a : α} :
    (if p then invalid field problem else x) = .ok a ↔ ¬p ∧ x = .ok a := by
  constructor
  · intro h
    split_ifs at h with hp
    · cases h
    · exact ⟨hp, h⟩
  · rintro ⟨hp, h⟩
    rwa [if_neg hp]

inductive HostKind where
  | invalid
  | dns
  | ipv4
  | ipv6
deriving DecidableEq, Repr

/-- The value of the `uint8` constant. -/
def HostKind.code : HostKind → Byte
  | .invalid => 0
  | .dns => 1
  | .ipv4 => 2
  | .ipv6 => 3

theorem HostKind.code_injective : Function.Injective HostKind.code := by
  intro k l h
  cases k <;> cases l <;> first | rfl | exact absurd h (by decide)

/-- A canonical endpoint network address.  The zero value is invalid. -/
@[ext] structure Address where
  host : Bytes := []
  port : Fin 65536 := 0
  kind : HostKind := .invalid
deriving DecidableEq, Repr

/-- `Address.valid`. -/
def Address.valid (a : Address) : Bool := a.host ≠ [] && a.port ≠ 0 && a.kind ≠ .invalid

/-- A byte admitted in a DNS label at position `index`, or the problem with it. -/
def labelProblem (length : Nat) (character : Byte) (index : Nat) : Option String :=
  let alphanumeric := 97 ≤ character.val && character.val ≤ 122 ||
    48 ≤ character.val && character.val ≤ 57
  if !alphanumeric && character ≠ 45 then some "must contain ASCII DNS labels"
  else if character = 45 && (index = 0 || index = length - 1) then
    some "DNS labels must not start or end with a hyphen"
  else none

/-- The first problem of a DNS label. -/
def checkLabel (label : Bytes) : Option String :=
  if label.length = 0 || 63 < label.length then some "must contain valid DNS labels"
  else label.zipIdx.findSome? fun (character, index) => labelProblem label.length character index

/-- The kind of an IP address. -/
def ipKind (address : Addr) : HostKind := if address.is4 then .ipv4 else .ipv6

/-- The end of `normalizeHost`, for a text that is no IP address. -/
def normalizeName (unicode : Unicode) (host : Bytes) (field : String) :
    Except Error (Bytes × HostKind) :=
  let host := toLower unicode host
  if host.length = 0 || 253 < host.length then invalid field "must satisfy DNS length limits"
  else
    match (host.splitOn 46).findSome? checkLabel with
    | some problem => invalid field problem
    | none => .ok (host, .dns)

/-- The text without one trailing dot. -/
def trimDot (host : Bytes) : Bytes := if host.getLast? = some 46 then host.dropLast else host

theorem trimDot_subset (host : Bytes) : trimDot host ⊆ host := by
  unfold trimDot
  split
  · exact List.dropLast_subset host
  · exact List.Subset.refl host

/-- `normalizeHost` after the brackets have been removed. -/
def normalizeBare (unicode : Unicode) (host : Bytes) (bracketed : Bool) (field : String) :
    Except Error (Bytes × HostKind) :=
  match parseAddr host with
  | some address =>
    if address.zone ≠ [] then invalid field "IPv6 zones are not supported"
    else if bracketed && address.is4 then
      invalid field "brackets are only valid for IPv6 addresses"
    else .ok (address.string, ipKind address)
  | none =>
    if containsAny host (ascii ":[]") then
      invalid field "must be a valid DNS name or IP address"
    else
      match parseAddr (trimDot host) with
      | some address => .ok (address.string, ipKind address)
      | none => normalizeName unicode (trimDot host) field

/-- `normalizeHost`. -/
def normalizeHost (unicode : Unicode) (raw : Bytes) (field : String) :
    Except Error (Bytes × HostKind) :=
  if raw = [] then invalid field "must not be empty"
  else if hasSurroundingSpace raw then
    invalid field "must not contain surrounding whitespace"
  else if raw.head? = some 91 || raw.getLast? = some 93 then
    if raw.length < 3 || raw.head? ≠ some 91 || raw.getLast? ≠ some 93 then
      invalid field "has invalid IP address brackets"
    else normalizeBare unicode raw.tail.dropLast true field
  else normalizeBare unicode raw false field

/-- `NewAddress`. -/
def newAddress (unicode : Unicode) (host : Bytes) (port : Int) : Except Error Address := do
  let (normalized, kind) ← normalizeHost unicode host "address.host"
  if port < 1 || 65535 < port then invalid "address.port" "must be between 1 and 65535"
  else .ok ⟨normalized, Fin.ofNat 65536 port.toNat, kind⟩

/-! ## Readings -/

/-- A host text and what is left of it without brackets; the flag says whether it had some. -/
inductive Bare : Bytes → Bytes → Bool → Prop where
  | plain {raw : Bytes} : raw.head? ≠ some 91 → raw.getLast? ≠ some 93 → Bare raw raw false
  | bracketed {text : Bytes} : text ≠ [] → Bare (91 :: text ++ [93]) text true

/-- How `normalizeBare` comes to its result. -/
inductive Reading (unicode : Unicode) (bare : Bytes) (bracketed : Bool) : Bytes → HostKind → Prop
    where
  | address {a : Addr} : parseAddr bare = some a → a.zone = [] →
      (bracketed = true → a.is4 = false) → Reading unicode bare bracketed a.string (ipKind a)
  | dotted {a : Addr} : parseAddr bare = none → containsAny bare (ascii ":[]") = false →
      parseAddr (trimDot bare) = some a → a.zone = [] →
      Reading unicode bare bracketed a.string (ipKind a)
  | name : parseAddr bare = none → containsAny bare (ascii ":[]") = false →
      parseAddr (trimDot bare) = none → (toLower unicode (trimDot bare)).length ≤ 253 →
      ((toLower unicode (trimDot bare)).splitOn 46).findSome? checkLabel = none →
      Reading unicode bare bracketed (toLower unicode (trimDot bare)) .dns

section

variable {unicode : Unicode} {raw bare text : Bytes} {bracketed : Bool} {field : String}
  {kind : HostKind}

theorem reading_of_normalizeBare
    (h : normalizeBare unicode bare bracketed field = .ok (text, kind)) :
    Reading unicode bare bracketed text kind := by
  simp only [normalizeBare] at h
  split at h
  next a hparse =>
    simp only [ite_invalid_eq_ok, not_not, Bool.and_eq_true, not_and, Bool.not_eq_true] at h
    obtain ⟨hzone, h4, h⟩ := h
    obtain ⟨rfl, rfl⟩ := Prod.mk.inj (Except.ok.inj h)
    exact .address hparse hzone h4
  next hparse =>
    obtain ⟨hseparators, h⟩ := ite_invalid_eq_ok.mp h
    rw [Bool.not_eq_true] at hseparators
    split at h
    next a hdotted =>
      obtain ⟨rfl, rfl⟩ := Prod.mk.inj (Except.ok.inj h)
      refine .dotted hparse hseparators hdotted (zone_eq_nil_of_parseAddr hdotted fun hmem => ?_)
      rw [containsAny, List.any_eq_false] at hseparators
      exact hseparators 58 (trimDot_subset bare hmem) (by decide)
    next hname =>
      simp only [normalizeName, ite_invalid_eq_ok, Bool.or_eq_true, decide_eq_true_eq, not_or,
        not_lt] at h
      obtain ⟨⟨-, hlength⟩, h⟩ := h
      split at h
      · cases h
      next hlabels =>
        obtain ⟨rfl, rfl⟩ := Prod.mk.inj (Except.ok.inj h)
        exact .name hparse hseparators hname hlength hlabels

/-- **What `normalizeHost` accepts.** -/
theorem reading_of_normalizeHost (h : normalizeHost unicode raw field = .ok (text, kind)) :
    ∃ bare bracketed, Bare raw bare bracketed ∧ Reading unicode bare bracketed text kind := by
  simp only [normalizeHost, ite_invalid_eq_ok] at h
  obtain ⟨-, -, h⟩ := h
  split at h
  next hsome =>
    simp only [ite_invalid_eq_ok, Bool.or_eq_true, decide_eq_true_eq, not_or, not_not, not_lt] at h
    obtain ⟨⟨⟨hlength, hhead⟩, hlast⟩, h⟩ := h
    refine ⟨raw.tail.dropLast, true, ?_, reading_of_normalizeBare h⟩
    obtain ⟨tail, rfl⟩ := List.head?_eq_some_iff.mp hhead
    obtain ⟨front, hfront⟩ := List.getLast?_eq_some_iff.mp hlast
    cases front with
    | nil =>
      rw [hfront] at hlength
      exact absurd hlength (by decide)
    | cons b front =>
      injection hfront with hb htail
      obtain rfl : tail = front ++ [93] := htail
      subst hb
      rw [List.tail_cons, List.dropLast_concat]
      refine .bracketed fun hnil => ?_
      rw [hnil] at hlength
      exact absurd hlength (by decide)
  next hnone =>
    simp only [Bool.or_eq_true, decide_eq_true_eq, not_or] at hnone
    exact ⟨raw, false, .plain hnone.1 hnone.2, reading_of_normalizeBare h⟩

end

/-! ## Normalised hosts are short -/

/-- A bound on the length of every normalised host; the longest are DNS names. -/
def maxHost : Nat := 253

/-- **A normalised host is at most 253 bytes long.** -/
theorem length_normalizeHost {raw : Bytes}
    (h : normalizeHost unicode raw field = .ok (text, kind)) :
    text.length ≤ maxHost := by
  obtain ⟨bare, bracketed, -, hreading⟩ := reading_of_normalizeHost h
  cases hreading with
  | address _ hzone | dotted _ _ _ hzone =>
    exact (Addr.length_string_le hzone).trans (by decide)
  | name _ _ _ hlength => exact hlength

theorem length_newAddress {port : Int} {a : Address} (h : newAddress unicode host port = .ok a) :
    a.host.length ≤ maxHost := by
  obtain ⟨⟨normalized, kind⟩, hhost, h⟩ := bind_eq_ok.mp h
  obtain ⟨-, h⟩ := ite_invalid_eq_ok.mp h
  obtain rfl := Except.ok.inj h
  exact length_normalizeHost hhost

end Egressfox.Endpoint
