import Egressfox.Selection.Survey
import Egressfox.Lib.Exchange

/-!
# The phases of `Select`, one specification each

* `evaluate_eligible_iff` — when a candidate is eligible.
* `rankedOf_*` — the ranking: the eligible candidates, strictly increasing in
  strategy key and identity.
* `retain_selected`, `findCooldown_retain` — what the loop over the previous members
  keeps.
* `fill_eq` — filling appends the best entries that are not selected yet.
* `optimize_pass` — optimising is one greedy replacement pass
  (`Lib.Exchange.Pass`): challengers best first, the worst entry past its residence
  gives way.

No later module unfolds a loop.
-/

namespace Egressfox.Selection

open Lib Endpoint Observation

variable {R : Type} {P : Primitives R}

/-! ## Evaluation -/

theorem rejection_ne_eligible (context : Context) (policy : Policy) (ref : ConnectionRef)
    (summary : Summary) : rejection context policy ref summary ≠ some .eligible := by
  unfold rejection
  repeat' split
  all_goals simp

theorem cooldownRejection_ne_eligible (policy : Policy) (cooldowns : List Cooldown) (now : Time)
    (ref : ConnectionRef) (summary : Summary) :
    cooldownRejection policy cooldowns now ref summary ≠ some .eligible := by
  unfold cooldownRejection
  repeat' split
  all_goals simp

/-- **Eligibility**: there is evidence, it passes every check, no cooldown stands in
the way and the confidence is positive. -/
theorem evaluate_eligible_iff {candidate : Candidate R} {ref : ConnectionRef} {context : Context}
    {policy : Policy} {cooldowns : List Cooldown} {incumbent : Bool} {selectedAt now : Time} :
    (evaluate P candidate ref context policy cooldowns incumbent selectedAt now).reason =
        .eligible ↔
      ∃ summary, candidate.evidence = some summary ∧
        rejection context policy ref summary = none ∧
        cooldownRejection policy cooldowns now ref summary = none ∧
        0 < wilsonLowerPPM P summary.successes summary.samples := by
  unfold evaluate
  cases candidate.evidence with
  | none => simp
  | some summary =>
    have hrej := rejection_ne_eligible context policy ref summary
    have hcool := cooldownRejection_ne_eligible policy cooldowns now ref summary
    cases hr : rejection context policy ref summary with
    | some reason => simpa [hr] using hrej
    | none =>
      cases hc : cooldownRejection policy cooldowns now ref summary with
      | some reason => simpa [hr, hc] using hcool
      | none =>
        by_cases hw : wilsonLowerPPM P summary.successes summary.samples ≤ 0
        · simp [hr, hc, hw]
        · simp [hr, hc, hw, not_le.mp hw]

section

variable (candidate : Candidate R) (ref : ConnectionRef) (context : Context) (policy : Policy)
  (cooldowns : List Cooldown) (incumbent : Bool) (selectedAt now : Time)

/-- What the previous members decide of an evaluation is the two flags. -/
theorem evaluate_flags :
    evaluate P candidate ref context policy cooldowns incumbent selectedAt now =
      { evaluate P candidate ref context policy cooldowns false 0 now with
        incumbent := incumbent
        residenceActive := incumbent && decide (now < selectedAt + policy.residence) } := by
  unfold evaluate
  cases candidate.evidence with
  | none => rfl
  | some summary =>
    dsimp only
    cases rejection context policy ref summary with
    | some reason => rfl
    | none =>
      dsimp only
      cases cooldownRejection policy cooldowns now ref summary with
      | some reason => rfl
      | none =>
        dsimp only
        split <;> rfl

theorem evaluate_connection :
    (evaluate P candidate ref context policy cooldowns incumbent selectedAt now).connection =
      ref := by
  unfold evaluate
  dsimp only
  repeat' split
  all_goals rfl

end

variable {surveyed : List (Ranked R)} {strategy : Strategy}

/-- An evaluated candidate is explained under its own reference. -/
theorem Accepted.connection_eq {scope : Bytes} {context : Context} {policy : Policy}
    {candidates : List (Candidate R)} {previous : Option State} {now : Time}
    (h : Accepted P scope context policy candidates previous now surveyed) {value : Ranked R}
    (hv : value ∈ surveyed) : value.explanation.connection = value.ref := by
  rw [h.surveyed_eq] at hv
  obtain ⟨candidate, -, rfl⟩ := List.mem_map.mp hv
  exact evaluate_connection ..

/-! ## Ranking -/

/-- What entries are ranked by: the strategy key, then the identity. -/
def rankKey (P : Primitives R) (strategy : Strategy) (value : Ranked R) : Int ×ₗ Identity :=
  toLex (strategyKey strategy value, P.identity value.candidate.record)

theorem lessRanked_iff (left right : Ranked R) :
    lessRanked P strategy left right = true ↔
      rankKey P strategy left < rankKey P strategy right := by
  rw [rankKey, rankKey, Prod.Lex.toLex_lt_toLex]
  unfold lessRanked
  by_cases hkey : strategyKey strategy left = strategyKey strategy right
  · simp [hkey, Identity.compare_eq_lt_iff]
  · have hstatic : strategy ≠ .static := by
      rintro rfl
      exact hkey rfl
    simp [hkey, hstatic]

/-- The eligible entries in rank order. -/
def rankedOf (P : Primitives R) (strategy : Strategy) (surveyed : List (Ranked R)) :
    List (Ranked R) :=
  sortRanked P strategy (surveyed.filter fun value => value.explanation.reason = .eligible)

theorem mem_rankedOf {value : Ranked R} :
    value ∈ rankedOf P strategy surveyed ↔
      value ∈ surveyed ∧ value.explanation.reason = .eligible := by
  simp [rankedOf, sortRanked]

section

variable (h : Surveyed P surveyed) (strategy : Strategy)
include h

/-- Different surveyed entries have different rank. -/
theorem Surveyed.rankKey_injOn : Set.InjOn (rankKey P strategy) {value | value ∈ surveyed} := by
  intro left hl right hr hkey
  have hid := (Prod.mk.inj (toLex.injective hkey)).2
  exact h.ref_injOn hl hr (by rw [h.ref_eq left hl, h.ref_eq right hr, hid])

theorem Surveyed.nodup_rankKey {l : List (Ranked R)} (hsub : ∀ value ∈ l, value ∈ surveyed)
    (hl : l.Nodup) :
    (l.map (rankKey P strategy)).Nodup :=
  (List.nodup_map_iff_inj_on hl).mpr fun left hleft right hright hkey =>
    h.rankKey_injOn strategy (hsub left hleft) (hsub right hright) hkey

/-- The ranking is strictly increasing. -/
theorem Surveyed.rankedOf_sorted :
    (rankedOf P strategy surveyed).Pairwise fun left right =>
      rankKey P strategy left < rankKey P strategy right :=
  sortSlice_pairwise_lt lessRanked_iff
    (h.nodup_rankKey strategy (fun _ hv => List.mem_of_mem_filter hv) (h.nodup.filter _))

theorem Surveyed.rankedOf_nodup : (rankedOf P strategy surveyed).Nodup :=
  (sortSlice_perm _ _).nodup_iff.mpr (h.nodup.filter _)

end

/-! ## Retaining -/

section Retain

variable {policy : Policy} {now : Time} {surveyed ranked : List (Ranked R)}

/-- A dropped member that starts its cooldown. -/
def failing (surveyed ranked : List (Ranked R)) (member : Member) : Bool :=
  (findRanked ranked member.connection).isNone &&
    (decide (reasonOf surveyed member.connection = some .failureStreak) ||
      decide (reasonOf surveyed member.connection = some .unreliable))

/-- The loop over the previous members keeps those still eligible, in order, is an
emergency as soon as one is not, and starts the cooldowns of the failing ones. -/
theorem retain_eq (cooldowns : List Cooldown) (members : List Member) :
    retain policy now surveyed ranked cooldowns members =
      { selected := members.filterMap fun member => findRanked ranked member.connection
        emergency := members.any fun member => (findRanked ranked member.connection).isNone
        cooldowns := (members.filter (failing surveyed ranked)).foldl
          (fun values member => upsertCooldown values ⟨member.connection, now + policy.cooldown⟩)
          cooldowns } := by
  unfold retain
  induction members using List.reverseRecOn with
  | nil => rfl
  | append_singleton members member ih =>
    rw [List.foldl_append, ih, List.foldl_cons, List.foldl_nil, retainStep]
    cases hf : findRanked ranked member.connection with
    | some entry =>
      have hfail : failing surveyed ranked member = false := by simp [failing, hf]
      simp [hf, hfail]
    | none =>
      by_cases hreason : reasonOf surveyed member.connection = some .failureStreak ∨
          reasonOf surveyed member.connection = some .unreliable
      · have hfail : failing surveyed ranked member = true := by
          simpa [failing, hf] using hreason
        simp [hf, hfail, hreason]
      · have hfail : failing surveyed ranked member = false := by
          simpa [failing, hf] using hreason
        simp [hf, hfail, hreason]

/-! ### The cooldown list -/

theorem findCooldown_upsert (values : List Cooldown) (value : Cooldown) (ref : ConnectionRef) :
    findCooldown (upsertCooldown values value) ref =
      if value.connection.equal ref then some value else findCooldown values ref := by
  unfold findCooldown
  induction values with
  | nil => by_cases h : value.connection.equal ref <;> simp [upsertCooldown, h]
  | cons head rest ih =>
    rw [upsertCooldown]
    by_cases hhead : head.connection.equal value.connection = true
    · have hconn := (ConnectionRef.equal_iff.mp hhead).1
      rw [if_pos hhead]
      by_cases h : value.connection.equal ref <;> simp [hconn, h]
    · rw [if_neg hhead, List.find?_cons, List.find?_cons, ih]
      by_cases hr : head.connection.equal ref = true
      · have hne : value.connection.equal ref = false := by
          rw [← Bool.not_eq_true]
          intro hv
          obtain ⟨hhr, hsome⟩ := ConnectionRef.equal_iff.mp hr
          have hvr := (ConnectionRef.equal_iff.mp hv).1
          exact hhead (ConnectionRef.equal_iff.mpr ⟨hhr.trans hvr.symm, hsome⟩)
        simp [hr, hne]
      · simp [hr]

/-- Starting cooldowns at one deadline: a started connection has the new deadline,
every other one what it had. -/
theorem findCooldown_foldl_upsert (cooldowns : List Cooldown) (members : List Member)
    (deadline : Time) {ref : ConnectionRef} :
    findCooldown (members.foldl
        (fun values member => upsertCooldown values ⟨member.connection, deadline⟩) cooldowns) ref =
      if members.any (fun member => member.connection.equal ref) then some ⟨ref, deadline⟩
      else findCooldown cooldowns ref := by
  induction members using List.reverseRecOn with
  | nil => simp
  | append_singleton members member ih =>
    rw [List.foldl_append, List.foldl_cons, List.foldl_nil, findCooldown_upsert, ih]
    by_cases h : member.connection.equal ref = true
    · have href := (ConnectionRef.equal_iff.mp h).1
      have hself : ref.equal ref = true := href ▸ h
      simp [href, hself]
    · simp [h]

end Retain

/-! ## Filling -/

/-- Filling appends the best entries that are not selected yet, up to the limit. -/
theorem Surveyed.fill_eq (h : Surveyed P surveyed) (policy : Policy)
    {ranked start : List (Ranked R)} (hranked : ∀ value ∈ ranked, value ∈ surveyed)
    (hnodup : ranked.Nodup) (hstart : ∀ value ∈ start, value ∈ surveyed) :
    fill policy ranked start =
      start ++ (ranked.filter fun value => !containsRanked start value.ref).take
        (policy.topN.toNat - start.length) := by
  unfold fill
  induction ranked using List.reverseRecOn with
  | nil => simp
  | append_singleton ranked value ih =>
    obtain ⟨hnodup', -, hnot⟩ := List.nodup_append'.mp hnodup
    have hranked' := fun v hv => hranked v (List.mem_append_left _ hv)
    rw [List.foldl_append, ih hranked' hnodup', List.foldl_cons, List.foldl_nil, fillStep]
    set rest := ranked.filter fun value => !containsRanked start value.ref with hrest
    set k := policy.topN.toNat - start.length with hk
    have hvmem : value ∈ surveyed := hranked value (by simp)
    -- the entry is among those appended so far exactly when it was selected at the start
    have hcontains : containsRanked (start ++ rest.take k) value.ref = true ↔
        containsRanked start value.ref = true := by
      have hall : ∀ v ∈ start ++ rest.take k, v ∈ surveyed := by
        intro v hv
        rcases List.mem_append.mp hv with hv | hv
        · exact hstart v hv
        · exact hranked' v (List.mem_of_mem_filter (List.mem_of_mem_take hv))
      rw [h.containsRanked_iff_mem hall hvmem, h.containsRanked_iff_mem hstart hvmem,
        List.mem_append, or_iff_left]
      intro hv
      exact hnot (List.mem_of_mem_filter (List.mem_of_mem_take hv)) (by simp)
    have hlen : ((start ++ rest.take k).length : Int) ≥ policy.topN ↔ k ≤ rest.length := by
      rw [List.length_append, List.length_take]
      omega
    rw [List.filter_append]
    by_cases hc : containsRanked start value.ref = true
    · rw [if_pos (Or.inr (hcontains.mpr hc)), List.filter_cons_of_neg (by simp [hc]),
        List.filter_nil, List.append_nil]
    · have hc' : containsRanked (start ++ rest.take k) value.ref = false := by
        rw [← Bool.not_eq_true, hcontains]
        exact hc
      by_cases hfull : k ≤ rest.length
      · rw [if_pos (Or.inl (hlen.mpr hfull)), List.take_append_of_le_length hfull]
      · have hlt := not_le.mp hfull
        rw [if_neg (by rw [hlen, hc']; simp [hfull]), List.filter_cons_of_pos (by simp [hc]),
          List.filter_nil, List.take_of_length_le hlt.le, List.append_assoc,
          List.take_of_length_le (by simpa using hlt)]

/-! ## Optimising -/

section Optimize

/-- An entry that optimising may not displace. -/
def Frozen (previous : List Member) (policy : Policy) (now : Time) (value : Ranked R) : Prop :=
  resident previous policy now value.ref = true

/-- The test a challenger has to pass. -/
def improves (policy : Policy) (challenger incumbent : Ranked R) : Bool :=
  improvesBy challenger.explanation incumbent.explanation policy.requiredImprovementPermille

/-- Passing the test implies a strictly better rank. -/
theorem rankKey_lt_of_improves (P : Primitives R) (policy : Policy)
    (challenger incumbent : Ranked R) (h : improves policy challenger incumbent = true) :
    rankKey P .adaptive challenger < rankKey P .adaptive incumbent := by
  have hcost := (Bool.and_eq_true_iff.mp h).2
  rw [rankKey, rankKey, Prod.Lex.toLex_lt_toLex]
  exact Or.inl (of_decide_eq_true hcost)

theorem worse_iff {left right : Ranked R} :
    (left.explanation.adaptiveCostNanos < right.explanation.adaptiveCostNanos ∨
      left.explanation.adaptiveCostNanos = right.explanation.adaptiveCostNanos ∧
        (P.identity left.candidate.record).compare (P.identity right.candidate.record) = .lt) ↔
      rankKey P .adaptive left < rankKey P .adaptive right := by
  rw [Identity.compare_eq_lt_iff, rankKey, rankKey, Prod.Lex.toLex_lt_toLex]
  rfl

variable (previous : List Member) (policy : Policy) (now : Time)

/-- The inner loop finds the worst entry that may be displaced, or there is none. -/
theorem findWorst_spec (selected : List (Ranked R)) :
    (findWorst P previous policy now selected = none ∧
        ∀ value ∈ selected, Frozen previous policy now value) ∨
      ∃ index worst, findWorst P previous policy now selected = some (index, worst) ∧
        Exchange.IsWorst (Frozen previous policy now) (rankKey P .adaptive) selected
          index worst := by
  unfold findWorst
  induction selected using List.reverseRecOn with
  | nil => exact Or.inl ⟨rfl, by simp⟩
  | append_singleton selected value ih =>
    rw [List.zipIdx_append, List.foldl_append]
    simp only [List.zipIdx_singleton, List.foldl_cons, List.foldl_nil, zero_add]
    have hlast : (selected ++ [value])[selected.length]? = some value := by simp
    by_cases hres : resident previous policy now value.ref = true
    · -- a resident entry is passed over
      rcases ih with ⟨hnone, hall⟩ | ⟨index, worst, hsome, hw⟩
      · refine Or.inl ⟨by simp [worstStep, hres, hnone], fun v hv => ?_⟩
        rcases List.mem_append.mp hv with hv | hv
        · exact hall v hv
        · exact List.mem_singleton.mp hv ▸ hres
      · refine Or.inr ⟨index, worst, by simp [worstStep, hres, hsome], ?_, hw.free, ?_⟩
        · exact (List.getElem?_append_left (List.getElem?_eq_some_iff.mp hw.get).1).trans hw.get
        · intro v hv hfree
          rcases List.mem_append.mp hv with hv | hv
          · exact hw.greatest v hv hfree
          · exact absurd (List.mem_singleton.mp hv ▸ hres) hfree
    · rcases ih with ⟨hnone, hall⟩ | ⟨index, worst, hsome, hw⟩
      · refine Or.inr ⟨selected.length, value, by simp [worstStep, hres, hnone], hlast, hres, ?_⟩
        intro v hv hfree
        rcases List.mem_append.mp hv with hv | hv
        · exact absurd (hall v hv) hfree
        · rw [List.mem_singleton.mp hv]
      · by_cases hlt : rankKey P .adaptive worst < rankKey P .adaptive value
        · refine Or.inr ⟨selected.length, value, ?_, hlast, hres, ?_⟩
          · rw [hsome, worstStep, if_neg hres]
            exact if_pos (worse_iff.mpr hlt)
          · intro v hv hfree
            rcases List.mem_append.mp hv with hv | hv
            · exact (hw.greatest v hv hfree).trans hlt.le
            · rw [List.mem_singleton.mp hv]
        · refine Or.inr ⟨index, worst, ?_, ?_, hw.free, ?_⟩
          · rw [hsome, worstStep, if_neg hres]
            exact if_neg (fun h => hlt (worse_iff.mp h))
          · exact (List.getElem?_append_left (List.getElem?_eq_some_iff.mp hw.get).1).trans hw.get
          · intro v hv hfree
            rcases List.mem_append.mp hv with hv | hv
            · exact hw.greatest v hv hfree
            · rw [List.mem_singleton.mp hv]
              exact not_lt.mp hlt

/-- One turn of the outer loop offers one challenger. -/
theorem Surveyed.optimizeStep_step {selected : List (Ranked R)} {challenger : Ranked R}
    (h : Surveyed P surveyed) (hselected : ∀ value ∈ selected, value ∈ surveyed)
    (hc : challenger ∈ surveyed) :
    Exchange.Step (Frozen previous policy now) (rankKey P .adaptive) (improves policy) selected
      challenger (optimizeStep P previous policy now selected challenger) := by
  unfold optimizeStep
  by_cases hmem : challenger ∈ selected
  · rw [if_pos ((h.containsRanked_iff_mem hselected hc).mpr hmem)]
    exact .held hmem
  · rw [if_neg (mt (h.containsRanked_iff_mem hselected hc).mp hmem)]
    rcases findWorst_spec (P := P) previous policy now selected with
      ⟨hnone, hall⟩ | ⟨index, worst, hsome, hw⟩
    · rw [hnone]
      exact .stuck hmem hall
    · rw [hsome]
      change Exchange.Step _ _ _ _ _ (if improves policy challenger worst then _ else _)
      cases hb : improves policy challenger worst with
      | true => exact .taken hmem hw hb
      | false => exact .refused hmem hw hb

/-- **Optimising is one greedy replacement pass.** -/
theorem Surveyed.optimize_pass {ranked selected : List (Ranked R)} (h : Surveyed P surveyed)
    (hranked : ∀ value ∈ ranked, value ∈ surveyed)
    (hselected : ∀ value ∈ selected, value ∈ surveyed) :
    Exchange.Pass (Frozen previous policy now) (rankKey P .adaptive) (improves policy) selected
      ranked (optimize P selected ranked previous policy now) := by
  have hall : Exchange.Pass (Frozen previous policy now) (rankKey P .adaptive) (improves policy)
        selected ranked (optimize P selected ranked previous policy now) ∧
      ∀ value ∈ optimize P selected ranked previous policy now, value ∈ surveyed := by
    unfold optimize
    induction ranked using List.reverseRecOn with
    | nil => exact ⟨.nil, hselected⟩
    | append_singleton ranked challenger ih =>
      obtain ⟨hpass, hmem⟩ := ih fun v hv => hranked v (List.mem_append_left _ hv)
      have hc := hranked challenger (by simp)
      have hstep := h.optimizeStep_step previous policy now hmem hc
      rw [List.foldl_append, List.foldl_cons, List.foldl_nil]
      refine ⟨hpass.snoc hstep, fun v hv => ?_⟩
      rcases hstep.mem_or_eq hv with hv | rfl
      · exact hmem v hv
      · exact hc
  exact hall.1

end Optimize

end Egressfox.Selection
