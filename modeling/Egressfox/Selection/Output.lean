import Egressfox.Selection.Outcome
import Egressfox.Selection.Valid

/-!
# What every decision satisfies

`OutputInvariant` collects what holds of a decision whenever `Select` succeeds from a
previous state that is absent or passes `Validate`: its size, that everything selected
is eligible and distinct, that the next state passes `Validate` again, that no member
of it is on cooldown, and which candidates a fresh decision selects.

There is one reservation.  A cooldown started now ends at `now + Cooldown`, and
`Validate` rejects a cooldown that ends at Go's zero time.  That instant is reached
from evaluation times before year 1, so the next state is valid under
`now + Cooldown ≠ 0` only.
-/

namespace Egressfox.Selection

open Lib Endpoint Observation

variable {R : Type} {P : Primitives R}

/-! ## The cooldown list -/

section

variable {policy : Policy} {now : Time} {usable : Option State} {surveyed : List (Ranked R)}

variable {cooldown : Cooldown} {cooldowns : List Cooldown}

theorem mem_upsertCooldown {values : List Cooldown} {value : Cooldown}
    (h : cooldown ∈ upsertCooldown values value) : cooldown ∈ values ∨ cooldown = value := by
  induction values with
  | nil => exact Or.inr (List.mem_singleton.mp h)
  | cons head rest ih =>
    rw [upsertCooldown] at h
    split at h
    · rcases List.mem_cons.mp h with rfl | h
      · exact Or.inr rfl
      · exact Or.inl (List.mem_cons_of_mem _ h)
    · rcases List.mem_cons.mp h with rfl | h
      · exact Or.inl List.mem_cons_self
      · exact (ih h).imp_left (List.mem_cons_of_mem _)

/-- A cooldown list as `Validate` wants it, times apart. -/
structure Orderly (cooldowns : List Cooldown) : Prop where
  revision : ∀ cooldown ∈ cooldowns, cooldown.connection.revision.isSome
  nodup : (cooldowns.map fun cooldown => refKey cooldown.connection).Nodup

theorem Orderly.sublist {cooldowns' : List Cooldown} (h : Orderly cooldowns)
    (hsub : cooldowns'.Sublist cooldowns) : Orderly cooldowns' :=
  ⟨fun cooldown hc => h.revision cooldown (hsub.subset hc), h.nodup.sublist (hsub.map _)⟩

/-- In an orderly list a connection has one cooldown. -/
theorem Orderly.findCooldown_eq (h : Orderly cooldowns) (hc : cooldown ∈ cooldowns) :
    findCooldown cooldowns cooldown.connection = some cooldown := by
  have hself : cooldown.connection.equal cooldown.connection = true :=
    ConnectionRef.equal_iff.mpr ⟨rfl, h.revision cooldown hc⟩
  cases hf : findCooldown cooldowns cooldown.connection with
  | none => exact absurd hself (by simpa using List.find?_eq_none.mp hf cooldown hc)
  | some other =>
    have hmem := List.mem_of_find?_eq_some hf
    have heq : other.connection.equal cooldown.connection = true := by
      simpa using List.find?_some hf
    have hkey : refKey other.connection = refKey cooldown.connection := by
      rw [(ConnectionRef.equal_iff.mp heq).1]
    exact congrArg some (List.inj_on_of_nodup_map h.nodup hmem hc hkey)

/-- Starting a cooldown for a valid connection keeps the list orderly. -/
theorem Orderly.upsert (h : Orderly cooldowns) {value : Cooldown}
    (hvalue : ValidRef value.connection) : Orderly (upsertCooldown cooldowns value) := by
  induction cooldowns with
  | nil => exact ⟨by simpa [upsertCooldown] using hvalue.1, by simp [upsertCooldown]⟩
  | cons head rest ih =>
    have hrest : Orderly rest := h.sublist (List.sublist_cons_self head rest)
    obtain ⟨hhead, hnodup⟩ := List.nodup_cons.mp h.nodup
    rw [upsertCooldown]
    split
    · rename_i heq
      refine ⟨fun cooldown hc => ?_, ?_⟩
      · rcases List.mem_cons.mp hc with rfl | hc
        · exact hvalue.1
        · exact hrest.revision cooldown hc
      · refine List.nodup_cons.mpr ⟨?_, hnodup⟩
        have hconn := (ConnectionRef.equal_iff.mp heq).1
        dsimp only at hhead ⊢
        rwa [← hconn]
    · rename_i hne
      refine ⟨fun cooldown hc => ?_, List.nodup_cons.mpr ⟨fun hmem => ?_, (ih hrest).nodup⟩⟩
      · rcases List.mem_cons.mp hc with rfl | hc
        · exact h.revision _ List.mem_cons_self
        · exact (ih hrest).revision cooldown hc
      · obtain ⟨cooldown, hc, hkey⟩ := List.mem_map.mp hmem
        rcases mem_upsertCooldown hc with hc | rfl
        · exact hhead (hkey ▸ List.mem_map_of_mem hc)
        · have hsome := h.revision head List.mem_cons_self
          have hconn := refKey_inj_of_valid hvalue hsome hkey
          exact hne (ConnectionRef.equal_iff.mpr ⟨hconn.symm, hsome⟩)

/-- Starting several cooldowns. -/
theorem Orderly.foldl_upsert (h : Orderly cooldowns) {members : List Member}
    (hmembers : ∀ member ∈ members, ValidRef member.connection) (deadline : Time) :
    Orderly (members.foldl
      (fun values member => upsertCooldown values ⟨member.connection, deadline⟩) cooldowns) := by
  induction members generalizing cooldowns with
  | nil => exact h
  | cons member rest ih =>
    exact ih (h.upsert (hmembers member List.mem_cons_self))
      fun other ho => hmembers other (List.mem_cons_of_mem _ ho)

theorem mem_foldl_upsert {members : List Member} {deadline : Time}
    (h : cooldown ∈ members.foldl (fun values member => upsertCooldown values ⟨member.connection,
      deadline⟩) cooldowns) :
    cooldown ∈ cooldowns ∨ ∃ member ∈ members, cooldown = ⟨member.connection, deadline⟩ := by
  induction members generalizing cooldowns with
  | nil => exact Or.inl h
  | cons member rest ih =>
    rcases ih h with h | ⟨other, ho, rfl⟩
    · rcases mem_upsertCooldown h with h | rfl
      · exact Or.inl h
      · exact Or.inr ⟨member, List.mem_cons_self, rfl⟩
    · exact Or.inr ⟨other, List.mem_cons_of_mem _ ho, rfl⟩

/-- Where the cooldowns of the next state come from: they are kept, or started for a
failing member. -/
theorem mem_nextCooldowns (h : cooldown ∈ nextCooldowns P policy now usable surveyed) :
    cooldown ∈ keepCooldowns policy now surveyed (rankedOf P policy.strategy surveyed)
        (previousCooldowns usable) ∨
      ∃ member ∈ previousMembers usable,
        failing surveyed (rankedOf P policy.strategy surveyed) member = true ∧
          cooldown = ⟨member.connection, now + policy.cooldown⟩ := by
  by_cases hc : policy.strategy = .adaptive ∧ usable.isSome
  · rw [nextCooldowns_of_continued hc] at h
    rcases mem_foldl_upsert h with h | ⟨member, hm, rfl⟩
    · exact Or.inl h
    · obtain ⟨hm, hf⟩ := List.mem_filter.mp hm
      exact Or.inr ⟨member, hm, hf, rfl⟩
  · rw [nextCooldowns_of_fresh hc] at h
    exact Or.inl h

variable (husable : ∀ state ∈ usable, state.Valid)
include husable

theorem valid_previousMembers {member : Member} (h : member ∈ previousMembers usable) :
    member.selectedAt ≠ 0 ∧ ValidRef member.connection := by
  cases usable with
  | none => exact absurd h (by simp [previousMembers])
  | some state => exact (husable state rfl).members member h

theorem distinct_previousMembers : DistinctMembers usable := by
  cases usable with
  | none => exact List.nodup_nil
  | some state =>
    refine List.Nodup.of_map refKey ?_
    rw [List.map_map]
    exact (husable state rfl).members_nodup

theorem orderly_previousCooldowns : Orderly (previousCooldowns usable) := by
  cases usable with
  | none => exact ⟨by simp [previousCooldowns], List.nodup_nil⟩
  | some state =>
    exact ⟨fun cooldown hc => ((husable state rfl).cooldowns cooldown hc).2,
      (husable state rfl).cooldowns_nodup⟩

theorem untilAt_previousCooldowns (h : cooldown ∈ previousCooldowns usable) :
    cooldown.untilAt ≠ 0 := by
  cases usable with
  | none => exact absurd h (by simp [previousCooldowns])
  | some state => exact ((husable state rfl).cooldowns cooldown h).1

theorem orderly_nextCooldowns : Orderly (nextCooldowns P policy now usable surveyed) := by
  have hkept : Orderly (keepCooldowns policy now surveyed
      (rankedOf P policy.strategy surveyed) (previousCooldowns usable)) :=
    (orderly_previousCooldowns husable).sublist List.filter_sublist
  by_cases hc : policy.strategy = .adaptive ∧ usable.isSome
  · rw [nextCooldowns_of_continued hc]
    exact hkept.foldl_upsert
      (fun member hm => (valid_previousMembers husable (List.mem_of_mem_filter hm)).2) _
  · rw [nextCooldowns_of_fresh hc]
    exact hkept

/-- A cooldown of the next state is that of a surveyed entry that is not chosen. -/
theorem Surveyed.nextCooldowns_spec (h : Surveyed P surveyed)
    (heligible : ∀ value ∈ surveyed, value.explanation.reason = .eligible →
      ∃ summary, value.candidate.evidence = some summary ∧
        cooldownRejection policy (previousCooldowns usable) now value.ref summary = none)
    (hc : cooldown ∈ nextCooldowns P policy now usable surveyed) :
    ∃ value ∈ surveyed, value.ref = cooldown.connection ∧
      value ∉ rankedOf P policy.strategy surveyed := by
  rcases mem_nextCooldowns hc with hkept | ⟨member, hm, hfail, rfl⟩
  · obtain ⟨hmem, hkeep⟩ := List.mem_filter.mp hkept
    obtain ⟨hpresent, hreason⟩ := Bool.and_eq_true_iff.mp hkeep
    obtain ⟨value, hv, hkey⟩ := List.any_eq_true.mp hpresent
    have hsome := (orderly_previousCooldowns husable).revision cooldown hmem
    have href := refKey_inj_of_valid (h.valid value hv) hsome (of_decide_eq_true hkey)
    refine ⟨value, hv, href, fun hranked => ?_⟩
    -- an eligible candidate has passed its cooldown, which is then released
    obtain ⟨summary, hsummary, hcool⟩ := heligible value hv (mem_rankedOf.mp hranked).2
    have hfind := (orderly_previousCooldowns husable).findCooldown_eq hmem
    have hfound := h.findRanked_ref (fun _ hw => rankedOf_subset hw) hranked
    rw [cooldownRejection, href, hfind] at hcool
    rw [← href, hfound] at hreason
    simp only [hsummary] at hreason
    dsimp only at hcool
    split at hcool
    · cases hcool
    rename_i hpast
    split at hcool
    · cases hcool
    rename_i hsuccesses
    simp [hpast, hsuccesses] at hreason
  · unfold failing at hfail
    obtain ⟨hnone, hreason⟩ := Bool.and_eq_true_iff.mp hfail
    have hvalid := (valid_previousMembers husable hm).2
    have hrecorded : (reasonOf surveyed member.connection).isSome := by
      rcases Bool.or_eq_true_iff.mp hreason with hr | hr <;> simp [of_decide_eq_true hr]
    unfold reasonOf at hrecorded
    rw [Option.isSome_map, List.find?_isSome] at hrecorded
    obtain ⟨value, hv, hkey⟩ := hrecorded
    have href := refKey_inj (h.valid value hv) hvalid (of_decide_eq_true hkey)
    refine ⟨value, hv, href, fun hranked => ?_⟩
    have hfound := h.findRanked_ref (fun _ hw => rankedOf_subset hw) hranked
    rw [href] at hfound
    simp [hfound] at hnone

end

/-! ## The decision -/

section

variable (P : Primitives R) (scope : Bytes) (context : Context) (policy : Policy)
  (candidates : List (Candidate R)) (previous : Option State) (now : Time)

/-- The eligible candidates as evaluated, in the order given. -/
def eligibleEntries : List (Ranked R) :=
  (candidates.map (assess P context policy
    (previousMembers (carried P scope context policy previous))
    (previousCooldowns (carried P scope context policy previous)) now)).filter
      fun value => value.explanation.reason = .eligible

/-- What holds of the decision of a successful `Select`. -/
structure OutputInvariant (decision : Decision R) : Prop where
  /-- Every slot is used while there are eligible candidates. -/
  count : decision.selected.length =
    min policy.topN.toNat (eligibleEntries P scope context policy candidates previous now).length
  distinct : (decision.selected.map P.identity).Nodup
  eligible : ∀ record ∈ decision.selected,
    ∃ value ∈ eligibleEntries P scope context policy candidates previous now,
      value.candidate.record = record
  /-- The next state passes `Validate`, unless a cooldown would end at the zero time. -/
  valid : now + policy.cooldown ≠ 0 → decision.next.validate = .ok ()
  /-- The members are the selected connections, in order. -/
  members_eq : decision.next.members.map Member.connection =
    decision.selected.map fun record => refOf (P.identity record)
  cooldowns_distinct : (decision.next.cooldowns.map Cooldown.connection).Nodup
  cooldowns_current : ∀ cooldown ∈ decision.next.cooldowns, ∃ candidate ∈ candidates,
    refOf (P.identity candidate.record) = cooldown.connection
  cooldowns_notMember : ∀ cooldown ∈ decision.next.cooldowns,
    ∀ member ∈ decision.next.members, member.connection ≠ cooldown.connection
  /-- A decision that is no adaptive continuation selects the least eligible
  candidates by strategy key and identity, in increasing order. -/
  least : ¬ (policy.strategy = .adaptive ∧ (carried P scope context policy previous).isSome) →
    ∃ order : List (Ranked R),
      order.Perm (eligibleEntries P scope context policy candidates previous now) ∧
        order.Pairwise (fun left right =>
          rankKey P policy.strategy left < rankKey P policy.strategy right) ∧
        decision.selected = (order.take policy.topN.toNat).map (·.candidate.record)

end

section

variable {scope : Bytes} {context : Context} {policy : Policy}
  {candidates : List (Candidate R)} {previous : Option State} {now : Time}
  {surveyed : List (Ranked R)}

/-- The ranking lists the eligible entries. -/
theorem Accepted.rankedOf_perm
    (h : Accepted P scope context policy candidates previous now surveyed) :
    (rankedOf P policy.strategy surveyed).Perm
      (eligibleEntries P scope context policy candidates previous now) := by
  refine (sortSlice_perm _ _).trans (List.Perm.filter _ ?_)
  rw [h.surveyed_eq]
  exact (sortSlice_perm _ _).map _

/-- An eligible entry has passed its cooldown. -/
theorem Accepted.cooldown_passed
    (h : Accepted P scope context policy candidates previous now surveyed) {value : Ranked R}
    (hv : value ∈ surveyed) (heligible : value.explanation.reason = .eligible) :
    ∃ summary, value.candidate.evidence = some summary ∧
      cooldownRejection policy (previousCooldowns (carried P scope context policy previous)) now
        value.ref summary = none := by
  rw [h.surveyed_eq] at hv
  obtain ⟨candidate, -, rfl⟩ := List.mem_map.mp hv
  obtain ⟨summary, hsummary, -, hcool, -⟩ := evaluate_eligible_iff.mp heligible
  exact ⟨summary, hsummary, hcool⟩

theorem carried_eq_some {state : State}
    (h : carried P scope context policy previous = some state) : previous = some state :=
  (Option.filter_eq_some_iff.mp h).1

/-- The surveyed entries are the candidates. -/
theorem Accepted.exists_candidate
    (h : Accepted P scope context policy candidates previous now surveyed) {value : Ranked R}
    (hv : value ∈ surveyed) :
    value.candidate ∈ candidates := by
  rw [h.surveyed_eq] at hv
  obtain ⟨candidate, hc, rfl⟩ := List.mem_map.mp hv
  exact mem_sortSlice.mp hc

theorem connection_nextMember (members : List Member) (now : Time) (value : Ranked R) :
    (nextMember members now value).connection = value.ref := rfl

theorem selectedAt_nextMember_ne (members : List Member) {now : Time} (hnow : now ≠ 0)
    (value : Ranked R) : (nextMember members now value).selectedAt ≠ 0 := by
  unfold nextMember
  dsimp only
  split
  · exact hnow
  · assumption

/-- The next state passes `Validate`. -/
theorem Accepted.next_valid
    (h : Accepted P scope context policy candidates previous now surveyed)
    (hcontext : context.check = .ok ())
    (husable : ∀ state ∈ carried P scope context policy previous, state.Valid)
    (hsha : policyFingerprint P policy ≠ Digest.zero) (htime : now + policy.cooldown ≠ 0) :
    (conclude P scope context policy previous (carried P scope context policy previous) now
      surveyed).next.validate = .ok () := by
  have hs := h.wellSurveyed
  have hdistinct := distinct_previousMembers husable
  rw [State.validate_eq_ok_iff, conclude_next]
  refine ⟨h.scope_safe, hcontext, hsha, h.now_ne, fun member hm => ?_, ?_, fun cooldown hc => ?_,
    (orderly_nextCooldowns husable).nodup⟩
  · obtain ⟨value, hv, rfl⟩ := List.mem_map.mp hm
    exact ⟨selectedAt_nextMember_ne _ h.now_ne value,
      hs.valid value (rankedOf_subset (hs.chosen_subset hv))⟩
  · rw [List.map_map]
    refine (List.nodup_map_iff_inj_on (hs.nodup_chosen hdistinct)).mpr
      fun left hl right hr hkey => ?_
    have hl' := rankedOf_subset (hs.chosen_subset hl)
    have hr' := rankedOf_subset (hs.chosen_subset hr)
    exact hs.ref_injOn hl' hr' (refKey_inj (hs.valid left hl') (hs.valid right hr') hkey)
  · refine ⟨?_, (orderly_nextCooldowns husable).revision cooldown hc⟩
    rcases mem_nextCooldowns hc with hkept | ⟨member, -, -, rfl⟩
    · exact untilAt_previousCooldowns husable (List.mem_of_mem_filter hkept)
    · exact htime

/-- **Every decision satisfies the output invariant**, for every valid context and
every previous state that is absent or passes `Validate`.  The hash is assumed not to
be zero on the policy. -/
theorem select_outputInvariant {decision : Decision R} (hcontext : context.check = .ok ())
    (hprevious : ∀ state ∈ previous, state.validate = .ok ())
    (hsha : policyFingerprint P policy ≠ Digest.zero)
    (hselect : select P scope context policy candidates previous now = .ok decision) :
    OutputInvariant P scope context policy candidates previous now decision := by
  obtain ⟨surveyed, h, rfl⟩ := select_eq_ok_iff.mp hselect
  have hs := h.wellSurveyed
  have husable : ∀ state ∈ carried P scope context policy previous, state.Valid :=
    fun state hstate =>
      State.validate_eq_ok_iff.mp (hprevious state (carried_eq_some hstate))
  have hdistinct := distinct_previousMembers husable
  have hperm := h.rankedOf_perm
  have hspec : ∀ cooldown ∈ nextCooldowns P policy now (carried P scope context policy previous)
      surveyed, ∃ value ∈ surveyed, value.ref = cooldown.connection ∧
        value ∉ rankedOf P policy.strategy surveyed :=
    fun _ hc => hs.nextCooldowns_spec husable (fun _ hv => h.cooldown_passed hv) hc
  refine ⟨?_, ?_, ?_, h.next_valid hcontext husable hsha, ?_, ?_, ?_, ?_, ?_⟩
  · rw [conclude_selected, List.length_map, hs.length_chosen hdistinct, hperm.length_eq]
  · rw [conclude_selected, List.map_map]
    refine (List.nodup_map_iff_inj_on (hs.nodup_chosen hdistinct)).mpr
      fun left hl right hr hid => ?_
    have hl' := rankedOf_subset (hs.chosen_subset hl)
    have hr' := rankedOf_subset (hs.chosen_subset hr)
    refine hs.ref_injOn hl' hr' ?_
    rw [hs.ref_eq left hl', hs.ref_eq right hr']
    exact congrArg refOf hid
  · intro record hrecord
    rw [conclude_selected] at hrecord
    obtain ⟨value, hv, rfl⟩ := List.mem_map.mp hrecord
    exact ⟨value, hperm.mem_iff.mp (hs.chosen_subset hv), rfl⟩
  · rw [conclude_next, conclude_selected, List.map_map, List.map_map]
    exact List.map_congr_left fun value hv =>
      hs.ref_eq value (rankedOf_subset (hs.chosen_subset hv))
  · rw [conclude_next]
    refine List.Nodup.of_map refKey ?_
    rw [List.map_map]
    exact (orderly_nextCooldowns husable).nodup
  · intro cooldown hc
    rw [conclude_next] at hc
    obtain ⟨value, hv, href, -⟩ := hspec cooldown hc
    exact ⟨value.candidate, h.exists_candidate hv, by rw [← href, hs.ref_eq value hv]⟩
  · intro cooldown hc member hm heq
    rw [conclude_next] at hc hm
    obtain ⟨value, hv, href, hnot⟩ := hspec cooldown hc
    obtain ⟨other, ho, rfl⟩ := List.mem_map.mp hm
    have ho' := hs.chosen_subset ho
    rw [connection_nextMember, ← href] at heq
    rw [hs.ref_injOn (rankedOf_subset ho') hv heq] at ho'
    exact hnot ho'
  · intro hfresh
    refine ⟨rankedOf P policy.strategy surveyed, hperm, hs.rankedOf_sorted _, ?_⟩
    rw [conclude_selected, hs.chosen_of_fresh hfresh]

end

namespace Sample

/-- A valid state with one member, evaluated in the year before Go's zero time. -/
def ancient : State := state (-2 * policy.cooldown) [⟨refOf (identity 5), -2 * policy.cooldown⟩]

/-- The member fails when exactly one cooldown is left to the zero time. -/
def failingAncient : Decision Identity :=
  conclusion (primitives fun _ _ => 500000) [candidate 5 10 8 20000000 0 2] (some ancient)
    (-policy.cooldown)

/-- A successful decision from a valid previous state whose next state `Validate`
rejects: the cooldown it starts ends at the zero time. -/
theorem next_invalid :
    context.check = .ok () ∧ ancient.validate = .ok () ∧
      select (primitives fun _ _ => 500000) scope context policy
        [candidate 5 10 8 20000000 0 2] (some ancient) (-policy.cooldown) =
          .ok failingAncient ∧
      failingAncient.next.validate = .error "invalid selection cooldown time" := by
  refine ⟨rfl, rfl, rfl, rfl⟩

theorem select_outputInvariant_fresh :
    OutputInvariant (primitives fun _ _ => 500000) scope context policy
      [candidate 6 10 8 20000000 3 0, candidate 5 10 9 30000000 3 0] none 2000
      (conclusion (primitives fun _ _ => 500000)
        [candidate 6 10 8 20000000 3 0, candidate 5 10 9 30000000 3 0] none 2000) :=
  select_outputInvariant rfl (by simp) (by decide) rfl

end Sample

end Egressfox.Selection
