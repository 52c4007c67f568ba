import Egressfox.Selection.Output
import Egressfox.Selection.Residence

/-!
# When repeating a selection changes nothing

`Select` is run again on the same candidates, at the same time, from the next state of
its own decision.  Everything but optimising repeats itself: the same candidates are
eligible (`reassess_eligible_iff`), the ranking is the same up to the incumbent flags
(`rankedOf_reassess`), all members are retained, the cooldowns are kept and nothing is
filled.  Whether the selection stays is then a question about a second replacement pass.

A second pass need not be a fixpoint.  The ranking uses costs rounded up to whole
nanoseconds while the accept test compares exact ratios, so among entries of equal
rounded cost a challenger can be refused by the worst incumbent and yet be good enough
for the incumbent that is the worst *after* a later challenger took that place.
`Overtaken` says exactly when this happens, in terms of the first call's inputs:
challengers are paired with the displaceable entries, worst first
(`Lib.Exchange.pairing`), and one that was skipped beats the worst entry left that is
displaceable next time.
-/

namespace Egressfox.Selection

open Lib Endpoint Observation

variable {R : Type} {P : Primitives R}

/-! ## The condition -/

section

variable (P : Primitives R) (scope : Bytes) (context : Context) (policy : Policy)
  (candidates : List (Candidate R)) (previous : Option State) (now : Time)

/-- The evaluated candidates of a call. -/
def surveyedOf : List (Ranked R) :=
  (orderCandidates P candidates).map
    (assess P context policy (previousMembers (carried P scope context policy previous))
      (previousCooldowns (carried P scope context policy previous)) now)

/-- An entry that the next evaluation at the same time may not displace, if selected:
an incumbent keeps its selection time, a newcomer is selected now. -/
def frozenNext (members : List Member) (policy : Policy) (now : Time) (value : Ranked R) : Bool :=
  if (findMember members value.ref).2 = 0 then 0 < policy.residence
  else resident members policy now value.ref

/-- The first call's challengers paired with its displaceable entries, worst first. -/
def slots (P : Primitives R) (policy : Policy) (usable : Option State) (now : Time)
    (surveyed : List (Ranked R)) : Exchange.Pairing (Ranked R) :=
  Exchange.pairing (improves policy)
    ((rankedOf P policy.strategy surveyed).filter fun value =>
      !containsRanked (filled P policy now usable surveyed) value.ref)
    (sortRanked P policy.strategy ((filled P policy now usable surveyed).filter fun value =>
      !resident (previousMembers usable) policy now value.ref)).reverse

/-- A challenger skipped by the first call beats the worst entry that the second call
may displace. -/
def Overtaken : Prop :=
  let usable := carried P scope context policy previous
  let surveyed := surveyedOf P scope context policy candidates previous now
  let p := slots P policy usable now surveyed
  (policy.strategy = .adaptive ∧ usable.isSome) ∧
    ((filled P policy now usable surveyed).length : Int) = policy.topN ∧
    ∃ challenger ∈ p.skipped, ∃ worst ∈ p.left ++ p.taken,
      frozenNext (previousMembers usable) policy now worst = false ∧
      (∀ other ∈ p.left ++ p.taken,
        frozenNext (previousMembers usable) policy now other = false →
          rankKey P .adaptive other ≤ rankKey P .adaptive worst) ∧
      improves policy challenger worst = true

/-- Repeating the call from the decision's next state succeeds and changes nothing. -/
def Repeats (decision : Decision R) : Prop :=
  ∃ again, select P scope context policy candidates (some decision.next) now = .ok again ∧
    again.selected = decision.selected ∧ again.next.members = decision.next.members ∧
    again.next.cooldowns = decision.next.cooldowns ∧ again.changed = false

end

variable {value : Ranked R} {ref : ConnectionRef} {cooldowns : List Cooldown}

/-! ## What repeats itself -/

section Reassess

variable {context : Context} {policy : Policy} {now : Time}

/-- Same candidate and reference, same merit; only the incumbent flags may differ. -/
structure SameMerit (value other : Ranked R) : Prop where
  candidate_eq : other.candidate = value.candidate
  ref_eq : other.ref = value.ref
  mean_eq : other.explanation.meanSuccessDuration = value.explanation.meanSuccessDuration
  confidence_eq : other.explanation.confidencePPM = value.explanation.confidencePPM
  cost_eq : other.explanation.adaptiveCostNanos = value.explanation.adaptiveCostNanos

theorem SameMerit.strategyKey_eq {other : Ranked R} (h : SameMerit value other)
    (strategy : Strategy) : strategyKey strategy other = strategyKey strategy value := by
  cases strategy with
  | lowestLatency => exact h.mean_eq
  | adaptive => exact h.cost_eq
  | static => rfl
  | other => rfl

theorem SameMerit.rankKey_eq {other : Ranked R} (h : SameMerit value other) (strategy : Strategy) :
    rankKey P strategy other = rankKey P strategy value := by
  rw [rankKey, rankKey, h.strategyKey_eq, h.candidate_eq]

theorem SameMerit.improves_eq {challenger challenger' incumbent incumbent' : Ranked R}
    (hc : SameMerit challenger challenger') (hi : SameMerit incumbent incumbent') :
    improves policy challenger' incumbent' = improves policy challenger incumbent := by
  rw [improves, improves, improvesBy, improvesBy, hc.mean_eq, hc.confidence_eq, hc.cost_eq,
    hi.mean_eq, hi.confidence_eq, hi.cost_eq]

/-- Only what the cooldowns say of the evidence at hand matters to an evaluation. -/
theorem evaluate_congr {candidate : Candidate R} {cooldowns' : List Cooldown} {incumbent : Bool}
    {selectedAt : Time}
    (h : ∀ summary, candidate.evidence = some summary →
      cooldownRejection policy cooldowns now ref summary =
        cooldownRejection policy cooldowns' now ref summary) :
    evaluate P candidate ref context policy cooldowns incumbent selectedAt now =
      evaluate P candidate ref context policy cooldowns' incumbent selectedAt now := by
  unfold evaluate
  cases hevidence : candidate.evidence with
  | none => rfl
  | some summary =>
    dsimp only
    rw [h summary hevidence]

theorem cooldownRejection_eq_some {summary : Summary} {reason : Reason}
    (h : cooldownRejection policy cooldowns now ref summary = some reason) :
    reason = .cooldown ∨ reason = .recovery := by
  unfold cooldownRejection at h
  split at h
  · cases h
  split at h
  · exact Or.inl (Option.some.inj h).symm
  split at h
  · exact Or.inr (Option.some.inj h).symm
  · cases h

end Reassess

/-- A first call, as far as the second one depends on it. -/
structure Round (P : Primitives R) (context : Context) (policy : Policy) (now : Time) where
  usable : Option State
  surveyed : List (Ranked R)
  next : State
  wellSurveyed : Surveyed P surveyed
  assessed : ∀ value ∈ surveyed, value = assess P context policy (previousMembers usable)
    (previousCooldowns usable) now value.candidate
  valid : ∀ state ∈ usable, state.Valid
  now_ne : now ≠ 0
  members_eq : next.members =
    (chosen P policy now usable surveyed).map (nextMember (previousMembers usable) now)
  cooldowns_eq : next.cooldowns = nextCooldowns P policy now usable surveyed

namespace Round

variable {context : Context} {policy : Policy} {now : Time}

theorem not_frozen_of_frozenNext {members : List Member}
    (hfree : frozenNext members policy now value = false) : ¬ Frozen members policy now value := by
  unfold frozenNext at hfree
  unfold Frozen
  split at hfree
  · rename_i htime
    simp [resident, htime]
  · rw [hfree]
    simp

variable (r : Round P context policy now)

/-- The members before the first call. -/
abbrev members : List Member := previousMembers r.usable

/-- The ranking of the first call. -/
abbrev ranking : List (Ranked R) := rankedOf P policy.strategy r.surveyed

/-- The entries before the first call optimised. -/
abbrev start : List (Ranked R) := filled P policy now r.usable r.surveyed

/-- The entries that the first call chose. -/
abbrev first : List (Ranked R) := chosen P policy now r.usable r.surveyed

/-- The pairing of the first call. -/
abbrev paired : Exchange.Pairing (Ranked R) := slots P policy r.usable now r.surveyed

/-- The entry of the second call for an entry of the first. -/
def again (value : Ranked R) : Ranked R :=
  assess P context policy r.next.members r.next.cooldowns now value.candidate

/-- The evaluated candidates of the second call. -/
abbrev resurveyed : List (Ranked R) := r.surveyed.map r.again

/-- An unselected eligible candidate beats the worst entry that may be displaced next. -/
def Improvable : Prop :=
  ∃ challenger ∈ r.ranking, challenger ∉ r.first ∧
    ∃ worst ∈ r.first, frozenNext r.members policy now worst = false ∧
      (∀ other ∈ r.first, frozenNext r.members policy now other = false →
        rankKey P .adaptive other ≤ rankKey P .adaptive worst) ∧
      improves policy challenger worst = true

/-! ### The same candidates are eligible -/

theorem cooldowns_spec {cooldown : Cooldown} (hc : cooldown ∈ r.next.cooldowns) :
    ∃ value ∈ r.surveyed, value.ref = cooldown.connection ∧ value ∉ r.ranking := by
  rw [r.cooldowns_eq] at hc
  refine r.wellSurveyed.nextCooldowns_spec r.valid (fun value hv heligible => ?_) hc
  rw [r.assessed value hv] at heligible
  obtain ⟨summary, hsummary, -, hcool, -⟩ := evaluate_eligible_iff.mp heligible
  have href := congrArg Ranked.ref (r.assessed value hv)
  exact ⟨summary, hsummary, by rw [href]; exact hcool⟩

/-- An eligible candidate has no cooldown any more. -/
theorem findCooldown_eq_none (hv : value ∈ r.ranking) :
    findCooldown r.next.cooldowns value.ref = none := by
  refine List.find?_eq_none.mpr fun cooldown hc heq => ?_
  obtain ⟨other, ho, href, hnot⟩ := r.cooldowns_spec hc
  have hsame := (ConnectionRef.equal_iff.mp heq).1
  exact hnot (r.wellSurveyed.ref_injOn ho (rankedOf_subset hv) (href.trans hsame) ▸ hv)

/-- A candidate that was only kept out by its cooldown still has it. -/
theorem findCooldown_eq (hv : value ∈ r.surveyed)
    (hineligible : value.explanation.reason ≠ .eligible)
    (hreason : value.explanation.reason ≠ .failureStreak ∧ value.explanation.reason ≠ .unreliable) :
    findCooldown r.next.cooldowns value.ref =
      findCooldown (previousCooldowns r.usable) value.ref := by
  have hnone := r.wellSurveyed.findRanked_eq_none hv hineligible policy.strategy
  rw [r.cooldowns_eq]
  by_cases hc : policy.strategy = .adaptive ∧ r.usable.isSome
  · rw [nextCooldowns_of_continued hc, findCooldown_foldl_upsert, if_neg,
      findCooldown_keep hv hnone]
    intro hany
    obtain ⟨member, hm, heq⟩ := List.any_eq_true.mp hany
    have hfail := (List.mem_filter.mp hm).2
    unfold failing at hfail
    rw [(ConnectionRef.equal_iff.mp heq).1, r.wellSurveyed.reasonOf_ref hv] at hfail
    simp [hreason] at hfail
  · rw [nextCooldowns_of_fresh hc, findCooldown_keep hv hnone]

theorem explanation_eq (hv : value ∈ r.surveyed) :
    value.explanation = evaluate P value.candidate value.ref context policy
      (previousCooldowns r.usable) (findMember r.members value.ref).1
      (findMember r.members value.ref).2 now := by
  have hassess := r.assessed value hv
  have href := congrArg Ranked.ref hassess
  have hexpl := congrArg Ranked.explanation hassess
  rw [hexpl, href]
  rfl

theorem reassess_ref (hv : value ∈ r.surveyed) : (r.again value).ref = value.ref :=
  (r.wellSurveyed.ref_eq value hv).symm

theorem reassess_explanation (hv : value ∈ r.surveyed) :
    (r.again value).explanation =
      evaluate P value.candidate value.ref context policy r.next.cooldowns
        (findMember r.next.members value.ref).1 (findMember r.next.members value.ref).2 now := by
  rw [← r.reassess_ref hv]
  rfl

/-- The second evaluation of an eligible candidate differs in the flags only. -/
theorem sameMerit (hv : value ∈ r.ranking) :
    SameMerit value (r.again value) ∧ (r.again value).explanation.reason = .eligible := by
  have hmem := rankedOf_subset hv
  have hexpl := r.explanation_eq hmem
  have hreason := (mem_rankedOf.mp hv).2
  rw [hexpl] at hreason
  obtain ⟨summary, hsummary, -, hcool, -⟩ := evaluate_eligible_iff.mp hreason
  have hagain : (r.again value).explanation =
      evaluate P value.candidate value.ref context policy (previousCooldowns r.usable)
        (findMember r.next.members value.ref).1 (findMember r.next.members value.ref).2 now := by
    rw [r.reassess_explanation hmem]
    refine evaluate_congr fun other hother => ?_
    obtain rfl : summary = other := Option.some.inj (hsummary.symm.trans hother)
    rw [hcool, cooldownRejection, r.findCooldown_eq_none hv]
  rw [evaluate_flags] at hagain hexpl hreason
  refine ⟨⟨rfl, r.reassess_ref hmem, ?_, ?_, ?_⟩, ?_⟩
  · rw [hagain, hexpl]
  · rw [hagain, hexpl]
  · rw [hagain, hexpl]
  · rw [hagain]
    exact hreason

/-- **The same candidates are eligible** the second time. -/
theorem reassess_eligible_iff (hv : value ∈ r.surveyed) :
    (r.again value).explanation.reason = .eligible ↔ value.explanation.reason = .eligible := by
  constructor
  · intro hagain
    by_contra hineligible
    rw [r.reassess_explanation hv] at hagain
    obtain ⟨summary, hsummary, hrej, hcool, hwilson⟩ := evaluate_eligible_iff.mp hagain
    -- only the cooldown can have kept it out the first time
    cases hfirst : cooldownRejection policy (previousCooldowns r.usable) now value.ref summary with
    | none =>
      refine hineligible ?_
      rw [r.explanation_eq hv]
      exact evaluate_eligible_iff.mpr ⟨summary, hsummary, hrej, hfirst, hwilson⟩
    | some reason =>
      have hreason : value.explanation.reason = reason := by
        rw [r.explanation_eq hv]
        simp [evaluate, hsummary, hrej, hfirst]
      have hkind := cooldownRejection_eq_some hfirst
      have hsame := r.findCooldown_eq hv hineligible
        (by rcases hkind with rfl | rfl <;> simp [hreason])
      rw [cooldownRejection, hsame, ← cooldownRejection, hfirst] at hcool
      cases hcool
  · intro heligible
    exact (r.sameMerit (mem_rankedOf.mpr ⟨hv, heligible⟩)).2

/-- **The ranking repeats itself.** -/
theorem rankedOf_reassess : rankedOf P policy.strategy r.resurveyed = r.ranking.map r.again := by
  have hfilter : r.resurveyed.filter
      (fun value => value.explanation.reason = .eligible) =
      (r.surveyed.filter fun value => value.explanation.reason = .eligible).map r.again := by
    rw [List.filter_map]
    congr 1
    refine List.filter_congr fun value hv => ?_
    exact decide_eq_decide.mpr (r.reassess_eligible_iff hv)
  rw [rankedOf, hfilter, ranking, rankedOf, sortRanked, sortRanked]
  refine (map_sortSlice _ fun left hl right hr => ?_).symm
  have hmerit : ∀ value ∈ r.surveyed.filter (fun value => value.explanation.reason = .eligible),
      SameMerit value (r.again value) := by
    intro value hv
    obtain ⟨hmem, heligible⟩ := List.mem_filter.mp hv
    exact (r.sameMerit (mem_rankedOf.mpr ⟨hmem, of_decide_eq_true heligible⟩)).1
  rw [Bool.eq_iff_iff, lessRanked_iff, lessRanked_iff, (hmerit left hl).rankKey_eq,
    (hmerit right hr).rankKey_eq]

/-! ### Everything is retained -/

/-- The second survey is well formed. -/
theorem wellSurveyed_again : Surveyed P r.resurveyed where
  ref_eq := by
    intro value hv
    obtain ⟨first, -, rfl⟩ := List.mem_map.mp hv
    rfl
  valid := by
    intro value hv
    obtain ⟨first, hf, rfl⟩ := List.mem_map.mp hv
    rw [r.reassess_ref hf]
    exact r.wellSurveyed.valid first hf
  sorted := List.pairwise_map.mpr r.wellSurveyed.sorted

theorem distinct : DistinctMembers r.usable :=
  distinct_previousMembers r.valid

theorem chosen_mem (hv : value ∈ r.first) : value ∈ r.surveyed :=
  rankedOf_subset (r.wellSurveyed.chosen_subset hv)

theorem length_chosen_le : r.first.length ≤ policy.topN.toNat := by
  rw [r.wellSurveyed.length_chosen r.distinct]
  exact min_le_left _ _

/-- A chosen entry is found in the second ranking. -/
theorem findRanked_again (hv : value ∈ r.first) :
    findRanked (rankedOf P policy.strategy r.resurveyed) value.ref = some (r.again value) := by
  have hmem : r.again value ∈ rankedOf P policy.strategy r.resurveyed := by
    rw [r.rankedOf_reassess]
    exact List.mem_map_of_mem (r.wellSurveyed.chosen_subset hv)
  rw [← r.reassess_ref (r.chosen_mem hv)]
  exact r.wellSurveyed_again.findRanked_ref (fun _ hw => rankedOf_subset hw) hmem

/-- All members are retained. -/
theorem starting_again (hadaptive : policy.strategy = .adaptive) (htop : 0 ≤ policy.topN) :
    starting P policy now (some r.next) r.resurveyed = r.first.map r.again := by
  have hretained : (previousMembers (some r.next)).filterMap (fun member =>
      findRanked (rankedOf P policy.strategy r.resurveyed) member.connection) =
      r.first.map r.again := by
    change r.next.members.filterMap _ = _
    rw [r.members_eq, List.filterMap_map]
    exact (List.filterMap_congr fun value hv => r.findRanked_again hv).trans
      (congrFun List.filterMap_eq_map _)
  have hshort : ¬ (((r.first.map r.again).length : Int) > policy.topN) := by
    have := r.length_chosen_le
    rw [List.length_map]
    omega
  rw [starting_of_continued ⟨hadaptive, rfl⟩, hretained, truncate, if_neg hshort]

/-- When a slot is free, every eligible candidate is chosen already. -/
theorem mem_chosen_of_free (hfree : r.first.length < policy.topN.toNat) (hv : value ∈ r.ranking) :
    value ∈ r.first := by
  have hs := r.wellSurveyed
  have hlen : r.first.length = min policy.topN.toNat r.ranking.length :=
    hs.length_chosen r.distinct
  have hsub : r.first.Subperm r.ranking :=
    List.subperm_of_subset (hs.nodup_chosen r.distinct) fun _ hw => hs.chosen_subset hw
  exact (hsub.perm_of_length_le (by omega)).mem_iff.mpr hv

/-- Nothing is filled. -/
theorem filled_again (hadaptive : policy.strategy = .adaptive) (htop : 0 ≤ policy.topN) :
    filled P policy now (some r.next) r.resurveyed = r.first.map r.again := by
  have hnone : ((rankedOf P policy.strategy r.resurveyed).filter fun value =>
      !containsRanked (r.first.map r.again) value.ref).take
        (policy.topN.toNat - r.first.length) = [] := by
    rcases r.length_chosen_le.lt_or_eq with hfree | hfull
    · rw [r.rankedOf_reassess]
      refine List.take_eq_nil_iff.mpr (Or.inr (List.filter_eq_nil_iff.mpr fun value hv => ?_))
      obtain ⟨first, hf, rfl⟩ := List.mem_map.mp hv
      have hmem := List.mem_map_of_mem (f := r.again) (r.mem_chosen_of_free hfree hf)
      have hcontains := (r.wellSurveyed_again.containsRanked_iff_mem (fun _ hw => by
        obtain ⟨other, ho, rfl⟩ := List.mem_map.mp hw
        exact List.mem_map_of_mem (r.chosen_mem ho))
        (List.mem_map_of_mem (rankedOf_subset hf))).mpr hmem
      simp [hcontains]
    · rw [hfull, Nat.sub_self, List.take_zero]
  rw [r.wellSurveyed_again.filled_eq, r.starting_again hadaptive htop, List.length_map, hnone,
    List.append_nil]

/-- No cooldown is released or started. -/
theorem nextCooldowns_again :
    nextCooldowns P policy now (some r.next) r.resurveyed = r.next.cooldowns := by
  have hkept : keepCooldowns policy now r.resurveyed (rankedOf P policy.strategy r.resurveyed)
      r.next.cooldowns = r.next.cooldowns := by
    refine List.filter_eq_self.mpr fun cooldown hc => ?_
    obtain ⟨value, hv, href, hnot⟩ := r.cooldowns_spec hc
    have hineligible : (r.again value).explanation.reason ≠ .eligible := by
      rw [Ne, r.reassess_eligible_iff hv]
      exact fun heligible => hnot (mem_rankedOf.mpr ⟨hv, heligible⟩)
    have hmem := List.mem_map_of_mem (f := r.again) hv
    have hnone := r.wellSurveyed_again.findRanked_eq_none hmem hineligible policy.strategy
    rw [r.reassess_ref hv, href] at hnone
    have hpresent : r.resurveyed.any
        (fun other => decide (refKey other.ref = refKey cooldown.connection)) = true :=
      List.any_eq_true.mpr ⟨_, hmem, by simp [r.reassess_ref hv, href]⟩
    rw [hpresent, hnone]
    simp
  by_cases hc : policy.strategy = .adaptive ∧ (some r.next).isSome
  · -- every member is found in the ranking, so none is failing
    have hnone : (previousMembers (some r.next)).filter
        (failing r.resurveyed (rankedOf P policy.strategy r.resurveyed)) = [] := by
      refine List.filter_eq_nil_iff.mpr fun member hm => ?_
      change member ∈ r.next.members at hm
      rw [r.members_eq] at hm
      obtain ⟨value, hv, rfl⟩ := List.mem_map.mp hm
      simp [failing, connection_nextMember, r.findRanked_again hv]
    rw [nextCooldowns_of_continued hc, hnone]
    exact hkept
  · rw [nextCooldowns_of_fresh hc]
    exact hkept

/-! ### The second pass -/

theorem connections_nodup : (r.next.members.map Member.connection).Nodup := by
  rw [r.members_eq, List.map_map]
  refine (List.nodup_map_iff_inj_on (r.wellSurveyed.nodup_chosen r.distinct)).mpr
    fun left hl right hr href => ?_
  exact r.wellSurveyed.ref_injOn (r.chosen_mem hl) (r.chosen_mem hr) href

theorem findMember_again (hv : value ∈ r.first) :
    findMember r.next.members value.ref = (true, (nextMember r.members now value).selectedAt) := by
  have hmem : nextMember r.members now value ∈ r.next.members := by
    rw [r.members_eq]
    exact List.mem_map_of_mem hv
  exact findMember_self r.connections_nodup hmem (r.wellSurveyed.valid value (r.chosen_mem hv)).1

theorem frozen_again (hv : value ∈ r.first) :
    Frozen r.next.members policy now (r.again value) ↔
      frozenNext r.members policy now value = true := by
  unfold Frozen frozenNext
  rw [r.reassess_ref (r.chosen_mem hv), resident, r.findMember_again hv]
  unfold nextMember
  dsimp only
  by_cases htime : (findMember r.members value.ref).2 = 0
  · simp [htime, r.now_ne]
  · simp [htime, resident]

/-- The worst displaceable entry of the second call is the image of the worst entry
displaceable next. -/
theorem isWorst_again {index : Nat} {entry : Ranked R}
    (hw : Exchange.IsWorst (Frozen r.next.members policy now) (rankKey P .adaptive)
      (r.first.map r.again) index entry) :
    ∃ worst ∈ r.first, entry = r.again worst ∧
      frozenNext r.members policy now worst = false ∧
      ∀ other ∈ r.first, frozenNext r.members policy now other = false →
        rankKey P .adaptive other ≤ rankKey P .adaptive worst := by
  obtain ⟨worst, hmem, rfl⟩ := List.mem_map.mp hw.mem
  have hmerit := fun {value : Ranked R} (hv : value ∈ r.first) =>
    (r.sameMerit (r.wellSurveyed.chosen_subset hv)).1
  refine ⟨worst, hmem, rfl, ?_, fun other ho hfree => ?_⟩
  · rw [← Bool.not_eq_true, ← r.frozen_again hmem]
    exact hw.free
  · have hle := hw.greatest _ (List.mem_map_of_mem ho) (by rw [r.frozen_again ho, hfree]; simp)
    rwa [(hmerit ho).rankKey_eq, (hmerit hmem).rankKey_eq] at hle

theorem rankedOf_again_sorted (hadaptive : policy.strategy = .adaptive) :
    (r.ranking.map r.again).Pairwise
      fun left right => rankKey P .adaptive left < rankKey P .adaptive right := by
  have hsorted := r.wellSurveyed_again.rankedOf_sorted policy.strategy
  rw [r.rankedOf_reassess] at hsorted
  rwa [hadaptive] at hsorted

/-- The second pass is a fixpoint unless the first decision is improvable. -/
theorem optimize_again_iff (hadaptive : policy.strategy = .adaptive) (htop : 0 ≤ policy.topN) :
    optimize P (r.first.map r.again) (r.ranking.map r.again) r.next.members policy now =
      r.first.map r.again ↔ ¬ r.Improvable := by
  have hs := r.wellSurveyed_again
  have hmerit := fun {value : Ranked R} (hv : value ∈ r.ranking) => (r.sameMerit hv).1
  have hinj : ∀ {left right : Ranked R}, left ∈ r.surveyed → right ∈ r.surveyed →
      r.again left = r.again right → left = right := fun hl hr heq =>
    r.wellSurveyed.ref_injOn hl hr
      ((r.reassess_ref hl).symm.trans ((congrArg Ranked.ref heq).trans (r.reassess_ref hr)))
  have hnodup : (filled P policy now (some r.next) _).Nodup := hs.nodup_filled r.connections_nodup
  have hpass : Exchange.Pass (Frozen (previousMembers (some r.next)) policy now) _ _
    (filled P policy now (some r.next) _) _ _ := hs.filled_pass
  rw [r.filled_again hadaptive htop] at hpass hnodup
  rw [r.rankedOf_reassess] at hpass
  refine (Exchange.Pass.eq_start_iff (rankKey_lt_of_improves P policy)
    (hs.rankKey_injOn .adaptive) hnodup (List.map_subset r.again fun _ hv => r.chosen_mem hv)
    (List.map_subset r.again fun _ hv => rankedOf_subset hv) (r.rankedOf_again_sorted hadaptive)
    hpass).trans ?_
  constructor
  · rintro hno ⟨challenger, hc, hnot, worst, hmem, hfree, hgreatest, hbetter⟩
    obtain ⟨index, hi⟩ := List.mem_iff_getElem?.mp (List.mem_map_of_mem (f := r.again) hmem)
    have hworst : Exchange.IsWorst (Frozen r.next.members policy now) (rankKey P .adaptive)
        (r.first.map r.again) index (r.again worst) := by
      refine ⟨hi, by rw [r.frozen_again hmem, hfree]; simp, fun entry he hef => ?_⟩
      obtain ⟨other, ho, rfl⟩ := List.mem_map.mp he
      rw [(hmerit (r.wellSurveyed.chosen_subset ho)).rankKey_eq,
        (hmerit (r.wellSurveyed.chosen_subset hmem)).rankKey_eq]
      refine hgreatest other ho ?_
      rw [← Bool.not_eq_true, ← r.frozen_again ho]
      exact hef
    have hrefused := hno _ (List.mem_map_of_mem hc) (fun hin => by
      obtain ⟨other, ho, heq⟩ := List.mem_map.mp hin
      exact hnot (hinj (r.chosen_mem ho) (rankedOf_subset hc) heq ▸ ho)) index _ hworst
    rw [(hmerit hc).improves_eq (hmerit (r.wellSurveyed.chosen_subset hmem)), hbetter] at hrefused
    cases hrefused
  · intro hno entry he hnot index w hw
    obtain ⟨challenger, hc, rfl⟩ := List.mem_map.mp he
    obtain ⟨worst, hmem, rfl, hfree, hgreatest⟩ := r.isWorst_again hw
    rw [(hmerit hc).improves_eq (hmerit (r.wellSurveyed.chosen_subset hmem)), ← Bool.not_eq_true]
    intro hbetter
    exact hno ⟨challenger, hc, fun hin => hnot (List.mem_map_of_mem hin), worst, hmem, hfree,
      hgreatest, hbetter⟩

/-! ### When the first decision is improvable -/

/-- A decision that is no continuation took the best and cannot be improved. -/
theorem not_improvable_of_fresh (hadaptive : policy.strategy = .adaptive)
    (hfresh : r.usable = none) : ¬ r.Improvable := by
  rintro ⟨challenger, hc, hnot, worst, hmem, -, -, hbetter⟩
  have hchosen : r.first = _ := r.wellSurveyed.chosen_of_fresh (by simp [hfresh])
  rw [hchosen] at hmem hnot
  have hsorted : r.ranking.Pairwise _ := r.wellSurveyed.rankedOf_sorted policy.strategy
  rw [← List.take_append_drop policy.topN.toNat r.ranking] at hsorted hc
  have hdrop := (List.mem_append.mp hc).resolve_left hnot
  have hlt := (List.pairwise_append.mp hsorted).2.2 worst hmem challenger hdrop
  rw [hadaptive] at hlt
  exact lt_asymm hlt (rankKey_lt_of_improves P policy challenger worst hbetter)

/-- What the pairing says of a continuation with every slot taken. -/
theorem pairs (hc : policy.strategy = .adaptive ∧ r.usable.isSome)
    (hfull : (r.start.length : Int) = policy.topN) :
    Exchange.Pairs (Frozen r.members policy now) r.start
      (sortRanked P policy.strategy (r.start.filter fun value =>
        !resident r.members policy now value.ref)).reverse
      r.ranking r.first r.paired := by
  have hs := r.wellSurveyed
  have hfilled : ∀ value ∈ r.start, value ∈ r.surveyed :=
    fun _ hv => rankedOf_subset (hs.filled_subset hv)
  have hnodup : r.start.Nodup := hs.nodup_filled r.distinct
  have hsorted : r.ranking.Pairwise _ := hs.rankedOf_sorted policy.strategy
  have hworst : (sortRanked P policy.strategy _).Pairwise _ :=
    sortSlice_pairwise_lt lessRanked_iff
      (hs.nodup_rankKey policy.strategy (fun _ hv => hfilled _ (List.mem_of_mem_filter hv))
        (hnodup.filter fun value => !resident r.members policy now value.ref))
  rw [hc.1] at hsorted hworst
  rw [first, chosen_of_continued hc, if_pos hfull]
  refine Exchange.Pass.pairs (hs.rankKey_injOn .adaptive) (rankKey_lt_of_improves P policy) ?_ ?_
    hnodup hfilled (fun _ hv => rankedOf_subset hv) ?_ ?_ hs.filled_pass
  · rw [List.pairwise_reverse, hc.1]
    exact hworst
  · intro value
    simp [sortRanked, Frozen]
  · exact hsorted
  · intro value hv
    rw [Bool.not_eq_true', ← Bool.not_eq_true,
      hs.containsRanked_iff_mem hfilled (rankedOf_subset hv)]

/-- Improvable means that a skipped challenger beats the worst entry left. -/
theorem improvable_iff (hc : policy.strategy = .adaptive ∧ r.usable.isSome)
    (hfull : (r.start.length : Int) = policy.topN) :
    r.Improvable ↔ ∃ challenger ∈ r.paired.skipped, ∃ worst ∈ r.paired.left ++ r.paired.taken,
      frozenNext r.members policy now worst = false ∧
      (∀ other ∈ r.paired.left ++ r.paired.taken, frozenNext r.members policy now other = false →
        rankKey P .adaptive other ≤ rankKey P .adaptive worst) ∧
      improves policy challenger worst = true := by
  have hp := r.pairs hc hfull
  -- the entries displaceable next are among those left and those taken
  have hslot : ∀ value ∈ r.paired.left ++ r.paired.taken, value ∈ r.first := fun value hv =>
    (hp.mem_iff value).mpr (Or.inr (List.mem_append.mp hv))
  have hfreed : ∀ value ∈ r.first, frozenNext r.members policy now value = false →
      value ∈ r.paired.left ++ r.paired.taken := by
    intro value hv hfree
    rcases (hp.mem_iff value).mp hv with ⟨-, hfrozen⟩ | hv
    · exact absurd hfrozen (not_frozen_of_frozenNext hfree)
    · exact List.mem_append.mpr hv
  constructor
  · rintro ⟨challenger, hcr, hnot, worst, hmem, hfree, hgreatest, hbetter⟩
    refine ⟨challenger, ?_, worst, hfreed worst hmem hfree, hfree,
      fun other ho => hgreatest other (hslot other ho), hbetter⟩
    have hout : challenger ∉ r.start := by
      -- what the first pass displaced ranks above everything displaceable
      intro hin
      rw [first, chosen_of_continued hc, if_pos hfull] at hnot hmem
      have hlt := (r.wellSurveyed.optimized_inv r.distinct hc.1).displaced challenger hin
        hnot worst hmem (not_frozen_of_frozenNext hfree)
      exact lt_asymm hlt (rankKey_lt_of_improves P policy challenger worst hbetter)
    rcases hp.cover challenger hcr hout with htaken | hskipped
    · exact absurd (hslot challenger (List.mem_append_right _ htaken)) hnot
    · exact hskipped
  · rintro ⟨challenger, hskipped, worst, hmem, hfree, hgreatest, hbetter⟩
    obtain ⟨hcr, -, hnot⟩ := hp.skipped challenger hskipped
    exact ⟨challenger, hcr, hnot, worst, hslot worst hmem, hfree,
      fun other ho hof => hgreatest other (hfreed other ho hof) hof, hbetter⟩

/-! ### The second decision -/

/-- The second call chooses the same entries unless the first decision is improvable. -/
theorem chosen_again_iff (htop : 0 ≤ policy.topN) :
    chosen P policy now (some r.next) r.resurveyed = r.first.map r.again ↔
      ¬ (policy.strategy = .adaptive ∧ (r.first.length : Int) = policy.topN ∧ r.Improvable) := by
  by_cases hadaptive : policy.strategy = .adaptive
  · have hiff := r.optimize_again_iff hadaptive htop
    rw [chosen_of_continued ⟨hadaptive, rfl⟩, r.filled_again hadaptive htop, r.rankedOf_reassess,
      List.length_map]
    split
    · rename_i hfull
      refine hiff.trans ?_
      simp [hadaptive, hfull]
    · rename_i hfree
      exact iff_of_true rfl fun hno => hfree hno.2.1
  · refine iff_of_true ?_ fun hno => hadaptive hno.1
    rw [r.wellSurveyed_again.chosen_of_fresh (fun hc => hadaptive hc.1),
      first, r.wellSurveyed.chosen_of_fresh (fun hc => hadaptive hc.1), r.rankedOf_reassess,
      List.map_take]

/-- The members stay as they are when the same entries are chosen. -/
theorem members_again :
    (r.first.map r.again).map (nextMember r.next.members now) = r.next.members := by
  rw [r.members_eq, List.map_map]
  refine List.map_congr_left fun value hv => ?_
  have hfind := r.findMember_again hv
  rw [r.members_eq] at hfind
  change nextMember _ now (r.again value) = _
  have hne := selectedAt_nextMember_ne r.members r.now_ne value
  rw [nextMember, r.reassess_ref (r.chosen_mem hv), hfind]
  dsimp only
  rw [if_neg hne]
  rfl

theorem sameMembers_self : sameMembers r.next.members r.next.members = true := by
  have hvalid : ∀ member ∈ r.next.members, member.connection.equal member.connection = true := by
    intro member hm
    rw [r.members_eq] at hm
    obtain ⟨value, hv, rfl⟩ := List.mem_map.mp hm
    exact equal_self_of_valid (r.wellSurveyed.valid value (r.chosen_mem hv))
  generalize r.next.members = members at hvalid
  induction members with
  | nil => rfl
  | cons member rest ih =>
    rw [sameMembers, hvalid member List.mem_cons_self,
      ih fun other ho => hvalid other (List.mem_cons_of_mem _ ho)]
    rfl

/-- Selecting the same records means choosing the same entries. -/
theorem chosen_again_of_records
    (hrecords : (chosen P policy now (some r.next) r.resurveyed).map (·.candidate.record) =
        r.first.map (·.candidate.record)) :
    chosen P policy now (some r.next) r.resurveyed = r.first.map r.again := by
  refine List.ext_getElem? fun index => ?_
  have hat := congrArg (·[index]?) hrecords
  simp only [List.getElem?_map] at hat ⊢
  cases hsecond : (chosen P policy now (some r.next) r.resurveyed)[index]? with
  | none =>
    rw [hsecond] at hat
    cases hfirst : r.first[index]? with
    | none => rfl
    | some value => simp [hfirst] at hat
  | some entry =>
    rw [hsecond] at hat
    cases hfirst : r.first[index]? with
    | none => simp [hfirst] at hat
    | some value =>
      rw [hfirst] at hat
      have hrecord : entry.candidate.record = value.candidate.record := by simpa using hat
      have hs := r.wellSurveyed_again
      have hmem := rankedOf_subset (hs.chosen_subset (List.mem_of_getElem? hsecond))
      have hv := r.chosen_mem (List.mem_of_getElem? hfirst)
      have href : entry.ref = (r.again value).ref := by
        rw [hs.ref_eq entry hmem, hrecord]
        rfl
      rw [hs.ref_injOn hmem (List.mem_map_of_mem hv) href, Option.map_some]

end Round

/-! ## The theorem -/

section

variable {scope : Bytes} {context : Context} {policy : Policy}
  {candidates : List (Candidate R)} {previous : Option State} {now : Time}
  {surveyed : List (Ranked R)}

theorem topN_pos_of_validate (h : policy.validate = .ok ()) : 1 ≤ policy.topN := by
  unfold Policy.validate at h
  split at h
  · cases h
  · split at h
    · cases h
    · rename_i hbounds
      exact not_lt.mp fun hlt => hbounds (Or.inl hlt)

section

variable (h : Accepted P scope context policy candidates previous now surveyed)
include h

/-- A first call, seen as a round. -/
def Accepted.round (husable : ∀ state ∈ carried P scope context policy previous, state.Valid) :
    Round P context policy now where
  usable := carried P scope context policy previous
  surveyed := surveyed
  next := (conclude P scope context policy previous (carried P scope context policy previous) now
    surveyed).next
  wellSurveyed := h.wellSurveyed
  assessed := by
    intro value hv
    rw [h.surveyed_eq] at hv
    obtain ⟨candidate, -, rfl⟩ := List.mem_map.mp hv
    rfl
  valid := husable
  now_ne := h.now_ne
  members_eq := rfl
  cooldowns_eq := rfl

/-- The second call passes the guards as well. -/
theorem Accepted.again (husable : ∀ state ∈ carried P scope context policy previous, state.Valid)
    (hnext : carried P scope context policy (some (h.round husable).next) =
      some (h.round husable).next) :
    Accepted P scope context policy candidates (some (h.round husable).next) now
      (h.round husable).resurveyed where
  scope_safe := h.scope_safe
  now_ne := h.now_ne
  policy_valid := h.policy_valid
  not_older := by
    rw [hnext]
    rintro state ⟨⟩
    exact le_rfl
  distinct := h.distinct
  valid := h.valid
  surveyed_eq := by
    rw [hnext]
    exact (congrArg (List.map (h.round husable).again) h.surveyed_eq).trans List.map_map

/-- Without a target revision nothing is ever eligible, and nothing carried. -/
theorem Accepted.repeats_of_no_target (htarget : context.target.revision = none) :
    Repeats P scope context policy candidates now
      (conclude P scope context policy previous (carried P scope context policy previous) now
        surveyed) := by
  have hcarried : ∀ state, carried P scope context policy state = none := by
    intro state
    cases hstate : carried P scope context policy state with
    | none => rfl
    | some usable => exact absurd (target_isSome_of_carried hstate) (by simp [htarget])
  have hs := h.wellSurveyed
  have hnone : chosen P policy now none surveyed = [] := by
    refine List.eq_nil_iff_forall_not_mem.mpr fun value hv => ?_
    obtain ⟨hmem, hreason⟩ := mem_rankedOf.mp (hs.chosen_subset hv)
    rw [h.surveyed_eq] at hmem
    obtain ⟨candidate, -, rfl⟩ := List.mem_map.mp hmem
    obtain ⟨summary, -, hrej, -⟩ := evaluate_eligible_iff.mp hreason
    -- a context without target revision matches no key
    have hmatch : context.matchesKey summary.key = false := by
      simp [Context.matchesKey, TargetRef.equal, htarget, revisionEqual]
    simp [rejection, hmatch] at hrej
  have hagain : Accepted P scope context policy candidates (some (conclude P scope context policy
      previous (carried P scope context policy previous) now surveyed).next) now surveyed :=
    { h with
      not_older := by simp [hcarried]
      surveyed_eq := by rw [h.surveyed_eq, hcarried, hcarried] }
  refine ⟨_, select_eq_ok_iff.mpr ⟨surveyed, hagain, rfl⟩, ?_, ?_, ?_, ?_⟩
  · rw [hcarried, hcarried]
    rfl
  · rw [hcarried, hcarried]
    rfl
  · rw [hcarried, hcarried]
    rfl
  · rw [hcarried, hcarried]
    change (!sameMembers [] ((chosen P policy now none surveyed).map (nextMember [] now))) = false
    rw [hnone]
    rfl

/-- With a target revision, repeating is choosing the same entries again. -/
theorem Accepted.repeats_iff
    (husable : ∀ state ∈ carried P scope context policy previous, state.Valid)
    (htarget : context.target.revision.isSome) :
    Repeats P scope context policy candidates now
        (conclude P scope context policy previous (carried P scope context policy previous) now
          surveyed) ↔
      ¬ (policy.strategy = .adaptive ∧ ((h.round husable).first.length : Int) = policy.topN ∧
        (h.round husable).Improvable) := by
  set r := h.round husable with hr
  have hnext : carried P scope context policy (some r.next) = some r.next :=
    carried_next htarget rfl rfl rfl
  have hagain := h.again husable hnext
  have htop : 0 ≤ policy.topN := by
    have := topN_pos_of_validate h.policy_valid
    omega
  rw [← r.chosen_again_iff htop]
  have hselect : ∀ again, select P scope context policy candidates (some r.next) now = .ok again ↔
      again = conclude P scope context policy (some r.next) (some r.next) now r.resurveyed := by
    intro again
    rw [select_eq_ok_iff]
    constructor
    · rintro ⟨surveyed', hacc, rfl⟩
      rw [hacc.surveyed_eq, hagain.surveyed_eq, hnext]
    · rintro rfl
      exact ⟨_, hagain, by rw [hnext]⟩
  constructor
  · rintro ⟨again, hok, hselected, -⟩
    rw [(hselect again).mp hok, conclude_selected] at hselected
    exact r.chosen_again_of_records hselected
  · intro hchosen
    have hmembers : (chosen P policy now (some r.next) r.resurveyed).map
        (nextMember r.next.members now) = r.next.members := by
      rw [hchosen]
      exact r.members_again
    refine ⟨_, (hselect _).mpr rfl, ?_, hmembers, r.nextCooldowns_again, ?_⟩
    · rw [conclude_selected, hchosen, List.map_map]
      rfl
    · change (!sameMembers r.next.members ((chosen P policy now (some r.next) r.resurveyed).map
        (nextMember r.next.members now))) = false
      rw [hmembers, r.sameMembers_self]
      rfl

end

/-- **Repeating a selection changes nothing exactly when no challenger is overtaken**, for every
previous state that is absent or passes `Validate`. -/
theorem repeats_iff_not_overtaken {decision : Decision R}
    (hprevious : ∀ state ∈ previous, state.validate = .ok ())
    (hselect : select P scope context policy candidates previous now = .ok decision) :
    Repeats P scope context policy candidates now decision ↔
      ¬ Overtaken P scope context policy candidates previous now := by
  obtain ⟨surveyed, h, rfl⟩ := select_eq_ok_iff.mp hselect
  have husable : ∀ state ∈ carried P scope context policy previous, state.Valid :=
    fun state hstate => State.validate_eq_ok_iff.mp (hprevious state (carried_eq_some hstate))
  have hsurveyed : surveyedOf P scope context policy candidates previous now = surveyed :=
    h.surveyed_eq.symm
  cases htarget : context.target.revision with
  | none =>
    refine iff_of_true (h.repeats_of_no_target htarget) fun hover => ?_
    obtain ⟨state, hstate⟩ := Option.isSome_iff_exists.mp hover.1.2
    exact absurd (target_isSome_of_carried hstate) (by simp [htarget])
  | some target =>
    have hs := h.wellSurveyed
    rw [h.repeats_iff husable (by simp [htarget]), not_iff_not, Overtaken, hsurveyed]
    set r := h.round husable
    have hlen : r.first.length = _ := hs.length_chosen r.distinct
    have hlen' : r.start.length = _ := hs.length_filled r.distinct
    constructor
    · rintro ⟨hadaptive, hfull, himprovable⟩
      have hc : policy.strategy = .adaptive ∧ r.usable.isSome := by
        refine ⟨hadaptive, ?_⟩
        cases hfresh : r.usable with
        | some state => rfl
        | none => exact absurd himprovable (r.not_improvable_of_fresh hadaptive hfresh)
      have hfilled : (r.start.length : Int) = policy.topN := by rw [hlen', ← hlen, hfull]
      exact ⟨hc, hfilled, (r.improvable_iff hc hfilled).mp himprovable⟩
    · rintro ⟨hc, hfilled, hskipped⟩
      exact ⟨hc.1, by rw [hlen, ← hlen']; exact hfilled, (r.improvable_iff hc hfilled).mpr hskipped⟩

end

namespace Sample

/-- The Wilson lower bounds of the success counts used below. -/
def wilson : Int → Int → Int
  | 40, 40 => 912375
  | 21, 31 => 501407
  | 14, 15 => 701829
  | _, _ => 438494

/-- Two incumbents (5 and 6) and two challengers (7 and 8).  Within each pair the costs
round up to the same nanosecond; the exact ratios differ. -/
def tied : List (Candidate Identity) :=
  [candidate 5 31 21 16546432 3 0, candidate 6 40 40 30108376 3 0,
    candidate 7 15 14 20844322 3 0, candidate 8 3 3 13023272 3 0]

def incumbents : State := state 1000 [⟨refOf (identity 5), 1000⟩, ⟨refOf (identity 6), 1000⟩]

/-- The decision once both incumbents are past their residence. -/
def once : Decision Identity :=
  conclusion (primitives wilson) tied (some incumbents) (1000 + policy.residence)

/-- The decision on the same candidates at the same time, from the first one's state. -/
def twice : Decision Identity :=
  conclusion (primitives wilson) tied (some once.next) (1000 + policy.residence)

/-- Candidate 7 is refused by incumbent 6, candidate 8 takes its place; repeated,
candidate 7 takes the place of incumbent 5. -/
theorem repeat_replaces :
    incumbents.validate = .ok () ∧
      select (primitives wilson) scope context policy tied (some incumbents)
        (1000 + policy.residence) = .ok once ∧
      select (primitives wilson) scope context policy tied (some once.next)
        (1000 + policy.residence) = .ok twice ∧
      once.selected = [identity 5, identity 8] ∧ twice.selected = [identity 7, identity 8] ∧
      twice.changed = true := by
  refine ⟨rfl, rfl, rfl, ?_, ?_, ?_⟩ <;> decide +kernel

theorem repeats_fresh :
    Repeats (primitives wilson) scope context policy tied 2000
      (conclusion (primitives wilson) tied none 2000) := by
  have h := repeats_iff_not_overtaken (show ∀ state ∈ (none : Option State),
    state.validate = .ok () by simp) (show select (primitives wilson) scope context policy tied
      none 2000 = .ok (conclusion (primitives wilson) tied none 2000) from rfl)
  exact h.mpr fun hover => absurd hover.1.2 (by decide)

end Sample

end Egressfox.Selection
