import Egressfox.Selection.Survey

/-!
# What `State.Validate` accepts

`Validate` loops over the members and the cooldowns with a set of the map keys seen so
far.  `State.validate_eq_ok_iff` turns an accepted state into `State.Valid`: every
time is set, every connection has a revision and no connection occurs twice.

A cooldown's connection is checked for its revision only, so its ID may be the zero
one; `refKey_inj_of_valid` is what compares such a key with that of a candidate.
-/

namespace Egressfox.Selection

open Lib Endpoint Observation

/-- Two references with revisions and one map key are equal as soon as one of them is
valid. -/
theorem refKey_inj_of_valid {left right : ConnectionRef} (hl : ValidRef left)
    (hr : right.revision.isSome) (h : refKey left = refKey right) : left = right := by
  refine refKey_inj hl ⟨hr, fun hinvalid => hl.2 ?_⟩ h
  obtain ⟨lid, _ | l⟩ := left
  · exact absurd hl.1 (by simp)
  obtain ⟨rid, _ | r⟩ := right
  · exact absurd hr (by simp)
  obtain ⟨hid, -⟩ := List.append_inj' h (l.property.trans r.property.symm)
  exact hid.trans hinvalid

theorem validateEach_eq_ok_iff {α : Type} {check : α → Option String} {key : α → Bytes}
    {duplicate : String} {seen : List Bytes} {values : List α} :
    validateEach check key duplicate seen values = .ok () ↔
      (∀ value ∈ values, check value = none) ∧ (values.map key).Nodup ∧
        ∀ value ∈ values, key value ∉ seen := by
  induction values generalizing seen with
  | nil => simp [validateEach]
  | cons value rest ih =>
    rw [validateEach]
    cases hcheck : check value with
    | some message => simp [hcheck]
    | none =>
      by_cases hseen : key value ∈ seen
      · simp [hseen]
      · dsimp only
        rw [if_neg hseen, ih, List.forall_mem_cons, List.forall_mem_cons, List.map_cons,
          List.nodup_cons]
        constructor
        · rintro ⟨hall, hnodup, hnot⟩
          refine ⟨⟨hcheck, hall⟩, ⟨fun hmem => ?_, hnodup⟩, hseen, fun other ho hs => ?_⟩
          · obtain ⟨other, ho, hkey⟩ := List.mem_map.mp hmem
            exact hnot other ho (hkey ▸ List.mem_cons_self)
          · exact hnot other ho (List.mem_cons_of_mem _ hs)
        · rintro ⟨⟨-, hall⟩, ⟨hne, hnodup⟩, -, hnot⟩
          refine ⟨hall, hnodup, fun other ho hs => ?_⟩
          rcases List.mem_cons.mp hs with hkey | hs
          · exact hne (hkey ▸ List.mem_map_of_mem ho)
          · exact hnot other ho hs

theorem Member.check_eq_none_iff {member : Member} :
    member.check = none ↔ member.selectedAt ≠ 0 ∧ ValidRef member.connection := by
  unfold check ValidRef
  rw [Option.isSome_iff_ne_none]
  by_cases htime : member.selectedAt = 0 <;>
    by_cases hid : member.connection.id.string = invalidID <;>
      by_cases hrev : member.connection.revision = none <;> simp [htime, hid, hrev]

theorem Cooldown.check_eq_none_iff {cooldown : Cooldown} :
    cooldown.check = none ↔ cooldown.untilAt ≠ 0 ∧ cooldown.connection.revision.isSome := by
  unfold check
  rw [Option.isSome_iff_ne_none]
  by_cases htime : cooldown.untilAt = 0 <;>
    by_cases hrev : cooldown.connection.revision = none <;> simp [htime, hrev]

/-- The zero digest is the only one whose bytes are all zero. -/
theorem digest_all_zero_iff {digest : Digest} :
    digest.val.all (· = 0) = true ↔ digest = Digest.zero := by
  obtain ⟨bytes, hlen⟩ := digest
  rw [Subtype.ext_iff, List.all_eq_true]
  simp only [decide_eq_true_eq, Digest.zero]
  rw [List.eq_replicate_iff]
  exact ⟨fun h => ⟨hlen, h⟩, fun h => h.2⟩

/-- The states `Validate` accepts. -/
structure State.Valid (state : State) : Prop where
  scope_safe : safeScope state.scope = true
  context_ok : state.context.check = .ok ()
  fingerprint : state.policyFingerprint ≠ Digest.zero
  evaluated : state.evaluatedAt ≠ 0
  members : ∀ member ∈ state.members, member.selectedAt ≠ 0 ∧ ValidRef member.connection
  members_nodup : (state.members.map fun member => refKey member.connection).Nodup
  cooldowns : ∀ cooldown ∈ state.cooldowns,
    cooldown.untilAt ≠ 0 ∧ cooldown.connection.revision.isSome
  cooldowns_nodup : (state.cooldowns.map fun cooldown => refKey cooldown.connection).Nodup

theorem State.validate_eq_ok_iff {state : State} : state.validate = .ok () ↔ state.Valid := by
  have hmembers : validateEach Member.check (fun member => refKey member.connection)
      "duplicate selection member" [] state.members = .ok () ↔ _ := validateEach_eq_ok_iff
  have hcooldowns : validateEach Cooldown.check (fun cooldown => refKey cooldown.connection)
      "duplicate selection cooldown" [] state.cooldowns = .ok () ↔ _ := validateEach_eq_ok_iff
  simp only [List.not_mem_nil, not_false_eq_true, implies_true, and_true,
    Member.check_eq_none_iff, Cooldown.check_eq_none_iff] at hmembers hcooldowns
  simp only [State.validate, bind, Except.bind, throw, throwThe, MonadExceptOf.throw]
  constructor
  · intro h
    split at h
    · cases h
    rename_i hscope
    split at h
    · cases h
    rename_i hcontext
    split at h
    · cases h
    rename_i hfingerprint
    split at h
    · cases h
    rename_i hevaluated
    split at h
    · cases h
    rename_i hm
    rw [digest_all_zero_iff] at hfingerprint
    exact ⟨by simpa using hscope, hcontext, hfingerprint, hevaluated, (hmembers.mp hm).1,
      (hmembers.mp hm).2, (hcooldowns.mp h).1, (hcooldowns.mp h).2⟩
  · intro h
    have hzero : state.policyFingerprint.val.all (· = 0) = false := by
      rw [← Bool.not_eq_true, digest_all_zero_iff]
      exact h.fingerprint
    have hm := hmembers.mpr ⟨h.members, h.members_nodup⟩
    have hc := hcooldowns.mpr ⟨h.cooldowns, h.cooldowns_nodup⟩
    simp [h.scope_safe, h.context_ok, hzero, h.evaluated, hm, hc]

end Egressfox.Selection
