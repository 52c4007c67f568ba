import Egressfox.Basic

/-!
# Endpoint identifiers and connection identities

`internal/endpoint/identity.go`, without the encoder that computes an identity from
a configuration (`Egressfox.Endpoint.Canonical`).

An identity pairs a public endpoint ID with a confidential revision.  The revision
is absent exactly in the zero value, which orders before every valid identity of
the same ID.  `Identity.compare` is shown to be the comparison of a linear order, so
everything sorted by it is sorted in the usual sense.
-/

namespace Egressfox.Endpoint

open Lib

/-- A versioned, non-secret logical endpoint identifier. -/
structure ID where
  value : Bytes
deriving DecidableEq, Repr

/-- Text of the zero identifier. -/
def invalidID : Bytes := ascii "<invalid-endpoint-id>"

/-- `ID.String`. -/
def ID.string (id : ID) : Bytes := if id.value = [] then invalidID else id.value

/-- An ID whose text is not that of the zero ID is told by its text. -/
theorem ID.eq_of_string_eq {id other : ID} (h : id.string ≠ invalidID)
    (heq : other.string = id.string) : other = id := by
  obtain ⟨value⟩ := id
  obtain ⟨value'⟩ := other
  unfold ID.string at h heq
  split_ifs at h heq
  · exact absurd rfl h
  · exact absurd rfl h
  · exact absurd heq.symm h
  · exact congrArg ID.mk heq

/-- `Revision.Equal`: an absent revision equals nothing. -/
def revisionEqual : Option Digest → Option Digest → Bool
  | some left, some right => left = right
  | _, _ => false

@[simp] theorem revisionEqual_iff {left right : Option Digest} :
    revisionEqual left right = true ↔ left = right ∧ left.isSome := by
  cases left <;> cases right <;> simp [revisionEqual]

/-- The complete connection identity. -/
structure Identity where
  id : ID
  revision : Option Digest
deriving DecidableEq, Repr

namespace Identity

/-- `Identity.Equal`. -/
def equal (identity other : Identity) : Bool :=
  if identity.id ≠ other.id ∨ identity.revision = none ∨ other.revision = none then
    identity.id = other.id ∧ identity.revision = none ∧ other.revision = none
  else identity.revision = other.revision

@[simp] theorem equal_iff {identity other : Identity} :
    identity.equal other = true ↔ identity = other := by
  obtain ⟨id, revision⟩ := identity
  obtain ⟨id', revision'⟩ := other
  unfold equal
  by_cases hid : id = id'
  · cases revision <;> cases revision' <;> simp [hid]
  · simp [hid]

/-- `Identity.Compare`. -/
def compare (identity other : Identity) : Ordering :=
  match bytesCompare identity.id.value other.id.value with
  | .eq =>
    match identity.revision, other.revision with
    | none, none => .eq
    | none, some _ => .lt
    | some _, none => .gt
    | some left, some right => bytesCompare left.val right.val
  | compared => compared

/-- Absent revisions come first, the others in byte order. -/
def revisionKey : Option Digest → WithBot Digest
  | none => ⊥
  | some revision => revision

/-- The position of an identity: by ID, then by revision. -/
def key (identity : Identity) : Bytes ×ₗ WithBot Digest :=
  toLex (identity.id.value, revisionKey identity.revision)

theorem key_injective : Function.Injective key := by
  rintro ⟨⟨value⟩, revision⟩ ⟨⟨value'⟩, revision'⟩ h
  obtain ⟨rfl, hrev⟩ := Prod.mk.inj (toLex.injective h)
  cases revision <;> cases revision' <;> simp_all [revisionKey]

instance : LinearOrder Identity := LinearOrder.lift' key key_injective

theorem lt_iff_key {identity other : Identity} :
    identity < other ↔ identity.key < other.key := Iff.rfl

/-- **`Compare` is the comparison of a linear order.** -/
theorem compare_eq_lt_iff {identity other : Identity} :
    identity.compare other = .lt ↔ identity < other := by
  obtain ⟨⟨value⟩, revision⟩ := identity
  obtain ⟨⟨value'⟩, revision'⟩ := other
  rw [lt_iff_key, key, key, Prod.Lex.toLex_lt_toLex]
  unfold compare
  rcases lt_trichotomy value value' with hlt | rfl | hgt
  · simp [bytesCompare, hlt]
  · -- equal IDs: what is left is the order of the two revisions
    cases revision with
    | none => cases revision' <;> simp [revisionKey]
    | some left =>
      cases revision' with
      | none => simp [revisionKey]
      | some right => simp [revisionKey, bytesCompare_eq_lt_iff]
  · simp [bytesCompare, hgt, lt_asymm hgt, hgt.ne']

end Identity

end Egressfox.Endpoint
