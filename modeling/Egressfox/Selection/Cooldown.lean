import Egressfox.Selection.Outcome

/-!
# A failing incumbent stays out until it has recovered

A chain of evaluations hands each decision's next state to the following one.  When
an incumbent is dropped for failing, the next state carries a cooldown for it.  The
invariant of the chain is `Barred`: the connection has a cooldown with that deadline
and is no member.  One evaluation either keeps it (`barred_step`) or is an evaluation
past the deadline with recovered evidence, and only such an evaluation can select the
connection again.

The previous state may be anything: it may list a connection twice, or with several
cooldowns.
-/

namespace Egressfox.Selection

open Lib Endpoint Observation

variable {R : Type} {P : Primitives R}

section

variable {scope : Bytes} {context : Context} {policy : Policy}

/-! ## Chains -/

/-- One evaluation of a chain. -/
structure Evaluation (R : Type) where
  candidates : List (Candidate R)
  now : Time
  decision : Decision R

/-- Evaluations with one scope, context and policy, each from the next state of the
one before. -/
inductive Chain (P : Primitives R) (scope : Bytes) (context : Context) (policy : Policy) :
    Option State → List (Evaluation R) → Prop
  | /-- No evaluation. -/
    nil {previous} : Chain P scope context policy previous []
  | /-- One evaluation, and those after it. -/
    cons {previous evaluation rest} :
      select P scope context policy evaluation.candidates previous evaluation.now =
        .ok evaluation.decision →
      Chain P scope context policy (some evaluation.decision.next) rest →
      Chain P scope context policy previous (evaluation :: rest)

/-- The connection is a candidate of the evaluation. -/
def IsCandidate (P : Primitives R) (evaluation : Evaluation R) (ref : ConnectionRef) : Prop :=
  ∃ candidate ∈ evaluation.candidates, refOf (P.identity candidate.record) = ref

/-- The connection is an incumbent that the evaluation drops for failing. -/
def DroppedFailing (evaluation : Evaluation R) (ref : ConnectionRef) : Prop :=
  ∃ explanation ∈ evaluation.decision.explanations, explanation.connection = ref ∧
    explanation.incumbent = true ∧
      (explanation.reason = .failureStreak ∨ explanation.reason = .unreliable)

/-- The evidence for the connection is eligible but for cooldowns, and shows enough
consecutive successes. -/
def Recovered (P : Primitives R) (context : Context) (policy : Policy) (evaluation : Evaluation R)
    (ref : ConnectionRef) : Prop :=
  ∃ candidate ∈ evaluation.candidates, refOf (P.identity candidate.record) = ref ∧
    (evaluate P candidate ref context policy [] false 0 evaluation.now).reason = .eligible ∧
    ∃ summary, candidate.evidence = some summary ∧
      policy.recoverySuccesses ≤ summary.consecutiveSuccesses

/-- A connection kept out by a cooldown. -/
structure Barred (state : State) (ref : ConnectionRef) (deadline : Time) : Prop where
  /-- Its cooldown ends at the deadline. -/
  cooldown : ∃ value, findCooldown state.cooldowns ref = some value ∧ value.untilAt = deadline
  /-- It is no member. -/
  notMember : ∀ member ∈ state.members, member.connection ≠ ref

/-! ## One evaluation -/

variable {evaluation : Evaluation R} {ref : ConnectionRef}

/-- The evaluation of a candidate connection. -/
theorem Accepted.assess_mem {previous : Option State} {surveyed : List (Ranked R)}
    (h : Accepted P scope context policy evaluation.candidates previous evaluation.now surveyed)
    {candidate : Candidate R} (hc : candidate ∈ evaluation.candidates)
    (href : refOf (P.identity candidate.record) = ref) :
    ∃ value ∈ surveyed, value.ref = ref ∧ value.candidate = candidate ∧
      value.explanation = evaluate P candidate ref context policy
        (previousCooldowns (carried P scope context policy previous))
        (findMember (previousMembers (carried P scope context policy previous)) ref).1
        (findMember (previousMembers (carried P scope context policy previous)) ref).2
        evaluation.now := by
  subst href
  refine ⟨assess P context policy _ _ evaluation.now candidate, ?_, rfl, rfl, rfl⟩
  rw [h.surveyed_eq]
  exact List.mem_map.mpr ⟨candidate, mem_sortSlice.mpr hc, rfl⟩

/-- A dropped failing incumbent starts its cooldown. -/
theorem barred_of_dropped {previous : Option State} (hadaptive : policy.strategy = .adaptive)
    (hselect : select P scope context policy evaluation.candidates previous evaluation.now =
      .ok evaluation.decision)
    (hdropped : DroppedFailing evaluation ref) :
    Barred evaluation.decision.next ref (evaluation.now + policy.cooldown) ∧
      carried P scope context policy (some evaluation.decision.next) =
        some evaluation.decision.next := by
  obtain ⟨surveyed, hacc, hdecision⟩ := select_eq_ok_iff.mp hselect
  have hs := hacc.wellSurveyed
  set usable := carried P scope context policy previous with husable
  obtain ⟨explanation, hexpl, hconn, hinc, hreason⟩ := hdropped
  rw [hdecision] at hexpl
  obtain ⟨value, hv, rfl⟩ := List.mem_map.mp hexpl
  -- the evaluated candidate behind the explanation
  have hval : ∃ candidate, value = assess P context policy (previousMembers usable)
      (previousCooldowns usable) evaluation.now candidate := by
    rw [hacc.surveyed_eq] at hv
    obtain ⟨candidate, -, rfl⟩ := List.mem_map.mp hv
    exact ⟨candidate, rfl⟩
  obtain ⟨candidate, hcand⟩ := hval
  have href : value.ref = ref := by
    rw [← hconn, hcand]
    exact (evaluate_connection ..).symm
  have hmember : (findMember (previousMembers usable) ref).1 = true := by
    have hflag := hinc
    rw [hcand, assess, evaluate_flags] at hflag
    rw [← href, hcand]
    exact hflag
  obtain ⟨member, hm, heq⟩ := findMember_fst_iff.mp hmember
  have hsome : usable.isSome := by
    cases husable' : usable with
    | none => rw [husable'] at hm; exact absurd hm (by simp [previousMembers])
    | some state => rfl
  have hne : value.explanation.reason ≠ .eligible := by
    rcases hreason with h | h <;> rw [h] <;> simp
  have hnone := hs.findRanked_eq_none hv hne policy.strategy
  have hmconn := (ConnectionRef.equal_iff.mp heq).1
  have hfail : failing surveyed (rankedOf P policy.strategy surveyed) member = true := by
    have hrecorded := hs.reasonOf_ref hv
    rw [href] at hnone hrecorded
    rcases hreason with h | h <;> simp [failing, hmconn, hnone, hrecorded, h]
  constructor
  · rw [hdecision, conclude_next]
    refine ⟨⟨⟨ref, evaluation.now + policy.cooldown⟩, ?_, rfl⟩, fun m hm' => ?_⟩
    · rw [nextCooldowns_of_continued ⟨hadaptive, hsome⟩, findCooldown_foldl_upsert, if_pos]
      exact List.any_eq_true.mpr ⟨member, List.mem_filter.mpr ⟨hm, hfail⟩, heq⟩
    · obtain ⟨other, hother, rfl⟩ := List.mem_map.mp hm'
      rw [← href]
      exact hs.ref_ne_of_chosen hv hne hother
  · obtain ⟨state, hstate⟩ := Option.isSome_iff_exists.mp hsome
    exact carried_next (target_isSome_of_carried hstate)
      (by rw [hdecision, conclude_next]) (by rw [hdecision, conclude_next])
      (by rw [hdecision, conclude_next])

/-- **One evaluation** keeps a barred connection out, or comes after the deadline
with recovered evidence. -/
theorem barred_step {state : State} {deadline : Time} (hadaptive : policy.strategy = .adaptive)
    (hcarried : carried P scope context policy (some state) = some state)
    (hbarred : Barred state ref deadline) (hcandidate : IsCandidate P evaluation ref)
    (hselect : select P scope context policy evaluation.candidates (some state) evaluation.now =
      .ok evaluation.decision) :
    (deadline ≤ evaluation.now ∧ Recovered P context policy evaluation ref) ∨
      (Barred evaluation.decision.next ref deadline ∧ ¬ SelectedIn P evaluation.decision ref ∧
        carried P scope context policy (some evaluation.decision.next) =
          some evaluation.decision.next) := by
  obtain ⟨surveyed, hacc, hdecision⟩ := select_eq_ok_iff.mp hselect
  have hs := hacc.wellSurveyed
  obtain ⟨candidate, hc, hcref⟩ := hcandidate
  obtain ⟨value, hv, href, hvc, hexpl⟩ := hacc.assess_mem hc hcref
  rw [hcarried] at hexpl hdecision
  obtain ⟨cooldown, hfound, huntil⟩ := hbarred.cooldown
  by_cases heligible : value.explanation.reason = .eligible
  · -- an eligible evaluation has looked at the cooldown
    refine Or.inl ?_
    rw [hexpl, evaluate_eligible_iff] at heligible
    obtain ⟨summary, hsummary, hrej, hcool, hwilson⟩ := heligible
    have hcool' := hcool
    simp only [cooldownRejection, previousCooldowns, Option.map_some, Option.getD_some,
      hfound] at hcool'
    split at hcool'
    · cases hcool'
    rename_i hpast
    split at hcool'
    · cases hcool'
    rename_i hsuccesses
    refine ⟨huntil ▸ not_lt.mp hpast, candidate, hc, hcref, ?_, summary, hsummary,
      not_lt.mp hsuccesses⟩
    exact evaluate_eligible_iff.mpr ⟨summary, hsummary, hrej, rfl, hwilson⟩
  · refine Or.inr ⟨?_, ?_, ?_⟩
    · rw [hdecision, conclude_next]
      refine ⟨⟨cooldown, ?_, huntil⟩, fun m hm => ?_⟩
      · have hnostart : ((previousMembers (some state)).filter
            (failing surveyed (rankedOf P policy.strategy surveyed))).any
              (fun member => member.connection.equal ref) = false := by
          rw [List.any_eq_false]
          intro member hmember heq
          exact hbarred.notMember member (List.mem_of_mem_filter hmember)
            (ConnectionRef.equal_iff.mp heq).1
        rw [nextCooldowns_of_continued ⟨hadaptive, rfl⟩, findCooldown_foldl_upsert, hnostart,
          if_neg (by simp), ← href, findCooldown_keep hv (hs.findRanked_eq_none hv heligible _),
          href]
        exact hfound
      · obtain ⟨other, hother, rfl⟩ := List.mem_map.mp hm
        rw [← href]
        exact hs.ref_ne_of_chosen hv heligible hother
    · rintro ⟨record, hrecord, hrref⟩
      rw [hdecision, conclude_selected] at hrecord
      obtain ⟨other, hother, rfl⟩ := List.mem_map.mp hrecord
      have hor := hs.ref_eq other (rankedOf_subset (hs.chosen_subset hother))
      exact hs.ref_ne_of_chosen hv heligible hother (by rw [hor, hrref, href])
    · exact carried_next (target_isSome_of_carried hcarried)
        (by rw [hdecision, conclude_next]) (by rw [hdecision, conclude_next])
        (by rw [hdecision, conclude_next])

/-! ## Whole chains -/

/-- Along a chain, a barred connection is selected only once an evaluation past the
deadline has seen recovered evidence. -/
theorem Chain.recovered_of_selected {state : State} {later : List (Evaluation R)} {deadline : Time}
    (hadaptive : policy.strategy = .adaptive)
    (hchain : Chain P scope context policy (some state) later)
    (hcarried : carried P scope context policy (some state) = some state)
    (hbarred : Barred state ref deadline)
    (hcandidate : ∀ evaluation ∈ later, IsCandidate P evaluation ref)
    {before after : List (Evaluation R)} (hlater : later = before ++ evaluation :: after)
    (hselected : SelectedIn P evaluation.decision ref) :
    ∃ recovery ∈ before ++ [evaluation], deadline ≤ recovery.now ∧
      Recovered P context policy recovery ref := by
  induction before generalizing state later with
  | nil =>
    subst hlater
    cases hchain with
    | cons hselect _ =>
      rcases barred_step hadaptive hcarried hbarred (hcandidate _ (by simp)) hselect with
        hrec | ⟨-, hnot, -⟩
      · exact ⟨evaluation, by simp, hrec⟩
      · exact absurd hselected hnot
  | cons first before ih =>
    subst hlater
    cases hchain with
    | cons hselect hrest =>
      rcases barred_step hadaptive hcarried hbarred (hcandidate _ (by simp)) hselect with
        hrec | ⟨hbarred', -, hcarried'⟩
      · exact ⟨first, by simp, hrec⟩
      · obtain ⟨recovery, hmem, hrec⟩ := ih hrest hcarried' hbarred'
          (fun e he => hcandidate e (List.mem_cons_of_mem _ he)) rfl
        exact ⟨recovery, List.mem_cons_of_mem _ hmem, hrec⟩

/-- **A failing incumbent's cooldown is honoured over every chain.**  After an
incumbent is dropped for failing, no evaluation before the end of its cooldown selects
it, and none after it does until an evaluation at or after the end of the cooldown has
seen its evidence otherwise eligible with enough consecutive successes. -/
theorem cooldown_honoured {previous : Option State} {dropped : Evaluation R}
    {later : List (Evaluation R)} {ref : ConnectionRef}
    (hadaptive : policy.strategy = .adaptive)
    (hchain : Chain P scope context policy previous (dropped :: later))
    (htimes : (dropped :: later).Pairwise fun first second => first.now ≤ second.now)
    (hcandidate : ∀ evaluation ∈ dropped :: later, IsCandidate P evaluation ref)
    (hdropped : DroppedFailing dropped ref)
    (before after : List (Evaluation R)) (evaluation : Evaluation R)
    (hlater : later = before ++ evaluation :: after) :
    (evaluation.now < dropped.now + policy.cooldown → ¬ SelectedIn P evaluation.decision ref) ∧
      (SelectedIn P evaluation.decision ref → ∃ recovery ∈ before ++ [evaluation],
        dropped.now + policy.cooldown ≤ recovery.now ∧
          Recovered P context policy recovery ref) := by
  have hrec : SelectedIn P evaluation.decision ref → ∃ recovery ∈ before ++ [evaluation],
      dropped.now + policy.cooldown ≤ recovery.now ∧ Recovered P context policy recovery ref := by
    intro hselected
    cases hchain with
    | cons hselect hrest =>
      obtain ⟨hbarred, hcarried⟩ := barred_of_dropped hadaptive hselect hdropped
      exact hrest.recovered_of_selected hadaptive hcarried hbarred
        (fun e he => hcandidate e (List.mem_cons_of_mem _ he)) hlater hselected
  refine ⟨fun hearly hselected => ?_, hrec⟩
  obtain ⟨recovery, hmem, hpast, -⟩ := hrec hselected
  have hle : recovery.now ≤ evaluation.now := by
    have hsorted := (List.pairwise_cons.mp htimes).2
    rw [hlater] at hsorted
    rcases List.mem_append.mp hmem with hmem | hmem
    · exact (List.pairwise_append.mp hsorted).2.2 recovery hmem evaluation (by simp)
    · exact (List.mem_singleton.mp hmem ▸ le_refl _)
  exact absurd (hpast.trans hle) (not_le.mpr hearly)

end

namespace Sample

/-- An incumbent with two failures in a row is dropped. -/
def dropping : Evaluation Identity where
  candidates := [candidate 5 10 8 20000000 0 2]
  now := 2000
  decision := conclusion (primitives fun _ _ => 500000) [candidate 5 10 8 20000000 0 2]
    (some (state 1000 [⟨refOf (identity 5), 1000⟩])) 2000

/-- It comes back with three successes when its cooldown ends. -/
def returning : Evaluation Identity where
  candidates := [candidate 5 10 8 20000000 3 0]
  now := 2000 + policy.cooldown
  decision := conclusion (primitives fun _ _ => 500000) [candidate 5 10 8 20000000 3 0]
    (some dropping.decision.next) (2000 + policy.cooldown)

theorem cooldown_honoured_returning :
    SelectedIn (primitives fun _ _ => 500000) returning.decision (refOf (identity 5)) ∧
      ∃ recovery ∈ [returning], dropping.now + policy.cooldown ≤ recovery.now ∧
        Recovered (primitives fun _ _ => 500000) context policy recovery (refOf (identity 5)) := by
  have hselected : SelectedIn (primitives fun _ _ => 500000) returning.decision
      (refOf (identity 5)) := ⟨identity 5, by decide +kernel, rfl⟩
  have hchain : Chain (primitives fun _ _ => 500000) scope context policy
      (some (state 1000 [⟨refOf (identity 5), 1000⟩])) [dropping, returning] :=
    .cons rfl (.cons rfl .nil)
  refine ⟨hselected, (cooldown_honoured rfl hchain (by decide) ?_ ?_ [] [] returning rfl).2
    hselected⟩
  · intro evaluation hmem
    rcases List.mem_cons.mp hmem with rfl | hmem
    · exact ⟨_, List.mem_singleton.mpr rfl, rfl⟩
    · obtain rfl := List.mem_singleton.mp hmem
      exact ⟨_, List.mem_singleton.mpr rfl, rfl⟩
  · refine ⟨_, List.mem_singleton.mpr rfl, rfl, rfl, Or.inl rfl⟩

end Sample

end Egressfox.Selection
