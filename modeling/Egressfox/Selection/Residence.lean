import Egressfox.Selection.Outcome

/-!
# Residence and hysteresis

An adaptive continuation may displace an incumbent that is still eligible only after
its residence, and only for a challenger that beats it by the required margin.  The
statement is about positions: optimising is a replacement pass in which every position
changes at most once (`Exchange.Pass.inv`), so what stands in the place of a displaced
incumbent is the challenger that beat it, and different incumbents are displaced by
different challengers.

Nothing is assumed of the confidence or of the costs: a cost that overflows is a cost.
-/

namespace Egressfox.Selection

open Lib Endpoint Observation

variable {R : Type} {P : Primitives R}

section

variable {scope : Bytes} {context : Context} {policy : Policy} {now : Time}

/-- The connection is evaluated as eligible. -/
def EligibleIn (decision : Decision R) (ref : ConnectionRef) : Prop :=
  ∃ explanation ∈ decision.explanations, explanation.connection = ref ∧
    explanation.reason = .eligible

/-- An eligible previous member that is not selected. -/
def Displaced (P : Primitives R) (state : State) (decision : Decision R) (member : Member) : Prop :=
  member ∈ state.members ∧ EligibleIn decision member.connection ∧
    ¬ SelectedIn P decision member.connection

section

variable {state : State} {surveyed : List (Ranked R)}

/-- Members with distinct connections are found under their own. -/
theorem findMember_self {members : List Member} (hdistinct : (members.map Member.connection).Nodup)
    {member : Member} (hm : member ∈ members) (hsome : member.connection.revision.isSome) :
    findMember members member.connection = (true, member.selectedAt) := by
  have hself : member.connection.equal member.connection = true :=
    ConnectionRef.equal_iff.mpr ⟨rfl, hsome⟩
  unfold findMember
  cases hf : members.find? fun value => value.connection.equal member.connection with
  | none => exact absurd hself (by simpa using List.find?_eq_none.mp hf member hm)
  | some other =>
    have heq : other.connection.equal member.connection = true := by
      simpa using List.find?_some hf
    have hother := List.inj_on_of_nodup_map hdistinct (List.mem_of_find?_eq_some hf) hm
      (ConnectionRef.equal_iff.mp heq).1
    dsimp only
    rw [hother]

/-- As long as they fit, all eligible members are retained. -/
theorem Surveyed.mem_starting_of_member (h : Surveyed P surveyed)
    (hadaptive : policy.strategy = .adaptive) (hlen : (state.members.length : Int) ≤ policy.topN)
    {member : Member} (hm : member ∈ state.members) {value : Ranked R}
    (hv : value ∈ rankedOf P policy.strategy surveyed) (href : value.ref = member.connection) :
    value ∈ starting P policy now (some state) surveyed := by
  have hshort : ¬ (((state.members.filterMap fun member =>
      findRanked (rankedOf P policy.strategy surveyed) member.connection).length : Int) >
        policy.topN) := by
    have := List.length_filterMap_le (fun member : Member =>
      findRanked (rankedOf P policy.strategy surveyed) member.connection) state.members
    omega
  rw [starting_of_continued ⟨hadaptive, rfl⟩]
  change value ∈ truncate P policy (state.members.filterMap _)
  rw [truncate, if_neg hshort]
  refine List.mem_filterMap.mpr ⟨member, hm, ?_⟩
  rw [← href]
  exact h.findRanked_ref (fun _ hw => rankedOf_subset hw) hv

/-- What became of the position of a filled entry. -/
theorem Surveyed.chosen_entry (h : Surveyed P surveyed) (hadaptive : policy.strategy = .adaptive)
    (hdistinct : DistinctMembers (some state)) {index : Nat} {value : Ranked R}
    (hi : (filled P policy now (some state) surveyed)[index]? = some value) :
    (chosen P policy now (some state) surveyed)[index]? = some value ∨
      ∃ challenger, (chosen P policy now (some state) surveyed)[index]? = some challenger ∧
        challenger ∉ filled P policy now (some state) surveyed ∧
        challenger ∈ rankedOf P policy.strategy surveyed ∧
        ¬ Frozen state.members policy now value ∧ improves policy challenger value = true := by
  rw [chosen_of_continued ⟨hadaptive, rfl⟩]
  split
  · exact (h.optimized_inv hdistinct hadaptive).entry index value hi
  · exact Or.inl hi

variable {candidates : List (Candidate R)} {previous usable : Option State}

/-- The evaluated entry behind an eligible connection. -/
theorem Accepted.entry_of_eligibleIn {ref : ConnectionRef}
    (h : Accepted P scope context policy candidates previous now surveyed)
    (heligible : EligibleIn (conclude P scope context policy previous usable now surveyed) ref) :
    ∃ value ∈ rankedOf P policy.strategy surveyed, value.ref = ref ∧
      value.explanation ∈
        (conclude P scope context policy previous usable now surveyed).explanations := by
  obtain ⟨explanation, hexpl, hconn, hreason⟩ := heligible
  obtain ⟨value, hv, rfl⟩ := List.mem_map.mp hexpl
  exact ⟨value, mem_rankedOf.mpr ⟨hv, hreason⟩, (h.connection_eq hv).symm.trans hconn, hexpl⟩

/-- A chosen entry is selected under its reference. -/
theorem Surveyed.selectedIn (h : Surveyed P surveyed) {value : Ranked R}
    (hv : value ∈ chosen P policy now usable surveyed) :
    SelectedIn P (conclude P scope context policy previous usable now surveyed) value.ref :=
  ⟨_, List.mem_map.mpr ⟨value, hv, rfl⟩,
    (h.ref_eq value (rankedOf_subset (h.chosen_subset hv))).symm⟩

/-- The position an eligible member has before optimising. -/
structure Position (P : Primitives R) (policy : Policy) (now : Time) (state : State)
    (surveyed : List (Ranked R)) (decision : Decision R) (member : Member) (index : Nat)
    (value : Ranked R) : Prop where
  get : (filled P policy now (some state) surveyed)[index]? = some value
  ref_eq : value.ref = member.connection
  ranked : value ∈ rankedOf P policy.strategy surveyed
  explained : value.explanation ∈ decision.explanations
  /-- It may not be displaced exactly during the member's residence. -/
  frozen_iff : Frozen state.members policy now value ↔ now < member.selectedAt + policy.residence
  /-- If it stays, so does the member. -/
  next_eq : nextMember state.members now value = member

section

variable (h : Accepted P scope context policy candidates previous now surveyed)
  (hadaptive : policy.strategy = .adaptive) (hlen : (state.members.length : Int) ≤ policy.topN)
  (hdistinct : (state.members.map Member.connection).Nodup) {member : Member}
include h hadaptive hlen hdistinct

theorem Accepted.position_of_member (hm : member ∈ state.members) (htime : member.selectedAt ≠ 0)
    (heligible : EligibleIn
      (conclude P scope context policy previous (some state) now surveyed) member.connection) :
    ∃ index value, Position P policy now state surveyed
      (conclude P scope context policy previous (some state) now surveyed)
        member index value := by
  have hs := h.wellSurveyed
  obtain ⟨value, hv, href, hexpl⟩ := h.entry_of_eligibleIn heligible
  have hstart : value ∈ starting P policy now (some state) surveyed :=
    hs.mem_starting_of_member hadaptive hlen hm hv href
  have hfilled : value ∈ filled P policy now (some state) surveyed := by
    rw [hs.filled_eq]
    exact List.mem_append_left _ hstart
  obtain ⟨index, hi⟩ := List.mem_iff_getElem?.mp hfilled
  have hsome : member.connection.revision.isSome :=
    href ▸ (hs.valid value (rankedOf_subset hv)).1
  have hfind := findMember_self hdistinct hm hsome
  refine ⟨index, value, hi, href, hv, hexpl, ?_, ?_⟩
  · simp [Frozen, resident, href, hfind, htime]
  · simp [nextMember, href, hfind, htime]

/-- In the position of a displaced member stands a challenger from outside that beat
it. -/
theorem Accepted.challenger_of_displaced (htime : member.selectedAt ≠ 0)
    (hd : Displaced P state
      (conclude P scope context policy previous (some state) now surveyed) member) :
    ∃ ref index value challenger, Position P policy now state surveyed
        (conclude P scope context policy previous (some state) now surveyed) member index value ∧
      (chosen P policy now (some state) surveyed)[index]? = some challenger ∧
      challenger.ref = ref ∧ challenger ∉ filled P policy now (some state) surveyed ∧
      ¬ Frozen state.members policy now value ∧ improves policy challenger value = true := by
  have hs := h.wellSurveyed
  obtain ⟨hm, heligible, hnot⟩ := hd
  obtain ⟨index, value, hp⟩ := h.position_of_member hadaptive hlen hdistinct hm htime heligible
  rcases hs.chosen_entry hadaptive hdistinct hp.get with
    hi | ⟨challenger, hi, hout, -, hfree, hbetter⟩
  · exact absurd (hp.ref_eq ▸ hs.selectedIn (List.mem_of_getElem? hi)) hnot
  · exact ⟨challenger.ref, index, value, challenger, hp, hi, rfl, hout, hfree, hbetter⟩

end

end

/-- **Residence and hysteresis.**  A previous member that is still eligible and within
its residence stays, with its selection time; and the eligible members that are
displaced inject into the newly selected connections, each past its residence and
beaten by the exact margin and in cost. -/
theorem residence_and_hysteresis {candidates : List (Candidate R)} {previous : Option State}
    {state : State} {decision : Decision R} (hadaptive : policy.strategy = .adaptive)
    (hcarried : carried P scope context policy previous = some state)
    (hlen : (state.members.length : Int) ≤ policy.topN)
    (hdistinct : (state.members.map Member.connection).Nodup)
    (htimes : ∀ member ∈ state.members, member.selectedAt ≠ 0)
    (hselect : select P scope context policy candidates previous now = .ok decision) :
    (∀ member ∈ state.members, EligibleIn decision member.connection →
      now < member.selectedAt + policy.residence →
        member ∈ decision.next.members ∧ SelectedIn P decision member.connection) ∧
    ∃ image : Member → ConnectionRef,
      Set.InjOn image {member | Displaced P state decision member} ∧
      ∀ member, Displaced P state decision member →
        SelectedIn P decision (image member) ∧
        (∀ other ∈ state.members, other.connection ≠ image member) ∧
        member.selectedAt + policy.residence ≤ now ∧
        ∃ incumbent ∈ decision.explanations, ∃ challenger ∈ decision.explanations,
          incumbent.connection = member.connection ∧ challenger.connection = image member ∧
          challenger.meanSuccessDuration * incumbent.confidencePPM * 1000 ≤
            incumbent.meanSuccessDuration * challenger.confidencePPM *
              (1000 - policy.requiredImprovementPermille) ∧
          challenger.adaptiveCostNanos < incumbent.adaptiveCostNanos := by
  obtain ⟨surveyed, hacc, hdecision⟩ := select_eq_ok_iff.mp hselect
  rw [hcarried] at hdecision
  have hs := hacc.wellSurveyed
  subst hdecision
  constructor
  · intro member hm heligible hresident
    obtain ⟨index, value, hp⟩ :=
      hacc.position_of_member hadaptive hlen hdistinct hm (htimes member hm) heligible
    rcases hs.chosen_entry hadaptive hdistinct hp.get with hi | ⟨_, _, _, _, hfree, _⟩
    · have hchosen := List.mem_of_getElem? hi
      refine ⟨?_, hp.ref_eq ▸ hs.selectedIn hchosen⟩
      rw [conclude_next, ← hp.next_eq]
      exact List.mem_map_of_mem hchosen
    · exact absurd (hp.frozen_iff.mpr hresident) hfree
  · have : Nonempty ConnectionRef := ⟨⟨⟨[]⟩, none⟩⟩
    have hdisplaced := fun member hd => hacc.challenger_of_displaced hadaptive hlen hdistinct
      (htimes member (And.left hd)) hd
    choose! image himage using hdisplaced
    refine ⟨image, ?_, ?_⟩
    · intro left hl right hr heq
      obtain ⟨i, v, c, hp, hi, href, -⟩ := himage left hl
      obtain ⟨j, w, e, hq, hj, href', -⟩ := himage right hr
      have hmem := fun {x : Ranked R} (hx : x ∈ chosen P policy now (some state) surveyed) =>
        rankedOf_subset (hs.chosen_subset hx)
      obtain rfl : c = e := hs.ref_injOn (hmem (List.mem_of_getElem? hi))
        (hmem (List.mem_of_getElem? hj)) (href.trans (heq.trans href'.symm))
      -- distinct positions hold distinct entries
      have hij : i = j := (List.getElem?_inj (List.getElem?_eq_some_iff.mp hi).1
        (hs.nodup_chosen hdistinct)).mp (hi.trans hj.symm)
      subst hij
      obtain rfl : v = w := Option.some.inj (hp.get.symm.trans hq.get)
      exact List.inj_on_of_nodup_map hdistinct hl.1 hr.1 (hp.ref_eq.symm.trans hq.ref_eq)
    · intro member hd
      obtain ⟨index, value, challenger, hp, hi, href, hout, hfree, hbetter⟩ := himage member hd
      have hchosen := List.mem_of_getElem? hi
      have hranked := hs.chosen_subset hchosen
      obtain ⟨hmargin, hcost⟩ := Bool.and_eq_true_iff.mp hbetter
      refine ⟨href ▸ hs.selectedIn hchosen, fun other ho hconn => ?_, ?_,
        value.explanation, hp.explained, challenger.explanation,
        List.mem_map_of_mem (rankedOf_subset hranked), ?_, ?_, of_decide_eq_true hmargin,
        of_decide_eq_true hcost⟩
      · -- a previous member that is ranked was retained
        refine hout ?_
        rw [hs.filled_eq]
        exact List.mem_append_left _ (hs.mem_starting_of_member hadaptive hlen ho hranked
          (href.trans hconn.symm))
      · exact not_lt.mp fun h => hfree (hp.frozen_iff.mpr h)
      · exact (hacc.connection_eq (rankedOf_subset hp.ranked)).trans hp.ref_eq
      · exact (hacc.connection_eq (rankedOf_subset hranked)).trans href

end

namespace Sample

/-- A member past its residence and a recent one. -/
def settled : State :=
  state 2000 [⟨refOf (identity 5), 1000⟩, ⟨refOf (identity 6), 2000⟩]

/-- Two incumbents and a faster candidate. -/
def faster : List (Candidate Identity) :=
  [candidate 5 10 8 30000000 3 0, candidate 6 10 8 40000000 3 0, candidate 7 10 8 20000000 3 0]

/-- The faster candidate appears when only the first residence is over. -/
def challenged : Decision Identity :=
  conclusion (primitives fun _ _ => 500000) faster (some settled) (1000 + policy.residence)

theorem residence_challenged :
    ⟨refOf (identity 6), 2000⟩ ∈ challenged.next.members ∧
      ∃ ref, SelectedIn (primitives fun _ _ => 500000) challenged ref ∧
        ref ≠ refOf (identity 5) ∧ ref ≠ refOf (identity 6) := by
  have h := residence_and_hysteresis rfl (show carried (primitives fun _ _ => 500000) scope context
    policy (some settled) = some settled from rfl) (by decide) (by decide)
    (by decide) (show select (primitives fun _ _ => 500000) scope context policy faster
      (some settled) (1000 + policy.residence) = .ok challenged from rfl)
  obtain ⟨hstay, image, -, hspec⟩ := h
  have hdisplaced : Displaced (primitives fun _ _ => 500000) settled challenged
      ⟨refOf (identity 5), 1000⟩ := by
    refine ⟨List.mem_cons_self, ⟨_, List.mem_cons_self, rfl, rfl⟩, ?_⟩
    rintro ⟨record, hrecord, href⟩
    obtain rfl := refOf_injective href
    exact absurd hrecord (by decide +kernel)
  obtain ⟨hselected, hnew, -⟩ := hspec _ hdisplaced
  refine ⟨(hstay ⟨refOf (identity 6), 2000⟩ (by simp [settled, state])
    ⟨_, List.mem_cons_of_mem _ List.mem_cons_self, rfl, rfl⟩ (by decide)).1, _, hselected,
    fun h => hnew ⟨refOf (identity 5), 1000⟩ List.mem_cons_self h.symm,
    fun h => hnew ⟨refOf (identity 6), 2000⟩ (by simp [settled, state]) h.symm⟩

/-- A usable state, of which `Validate` is not asked: its first member has no selection time. -/
def unset : State := state 1 [⟨refOf (identity 5), 0⟩, ⟨refOf (identity 6), 1⟩]

/-- The faster candidate appears right after. -/
def overtaken : Decision Identity :=
  conclusion (primitives fun _ _ => 500000) faster (some unset) 2

/-- The first member is eligible and within its residence, and not selected. -/
theorem unset_member_displaced :
    (policy.strategy = .adaptive ∧
      carried (primitives fun _ _ => 500000) scope context policy (some unset) = some unset ∧
      (unset.members.length : Int) ≤ policy.topN ∧
      (unset.members.map Member.connection).Nodup ∧
      select (primitives fun _ _ => 500000) scope context policy faster (some unset) 2 =
        .ok overtaken) ∧
    ∃ member ∈ unset.members, EligibleIn overtaken member.connection ∧
      2 < member.selectedAt + policy.residence ∧
      ¬SelectedIn (primitives fun _ _ => 500000) overtaken member.connection := by
  refine ⟨⟨rfl, rfl, by decide, by decide, rfl⟩, _, List.mem_cons_self,
    ⟨_, List.mem_cons_self, rfl, rfl⟩, by decide, ?_⟩
  rintro ⟨record, hrecord, href⟩
  obtain rfl := refOf_injective href
  exact absurd hrecord (by decide +kernel)

end Sample

end Egressfox.Selection
