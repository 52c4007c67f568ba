import Egressfox.Selection.Phases

/-!
# What a decision is made of

`starting` are the entries `Select` retains of the previous state and `chosen` the
ones it ends with; the decision reads everything else off them (`conclude_*`).  Both
come from the ranking (`mem_starting`, `Surveyed.chosen_subset`), so whatever is
selected is eligible.

When the previous members are distinct, `chosen` has exactly as many entries as there
are slots or eligible candidates, whichever is less, and no two are the same.
-/

namespace Egressfox.Selection

open Lib Endpoint Observation

variable {R : Type} {P : Primitives R}

section

variable (P : Primitives R) (policy : Policy) (now : Time) (usable : Option State)
  (surveyed : List (Ranked R))

/-- The entries retained of the previous state. -/
def starting : List (Ranked R) :=
  (retained P policy now surveyed (rankedOf P policy.strategy surveyed) usable).selected

/-- The retained entries and the best others, as many as there are slots. -/
def filled : List (Ranked R) :=
  fill policy (rankedOf P policy.strategy surveyed) (starting P policy now usable surveyed)

/-- The entries `Select` ends with. -/
def chosen : List (Ranked R) :=
  choose P policy now (rankedOf P policy.strategy surveyed) usable
    (starting P policy now usable surveyed)

/-- The cooldowns of the next state. -/
def nextCooldowns : List Cooldown :=
  (retained P policy now surveyed (rankedOf P policy.strategy surveyed) usable).cooldowns

variable (scope : Bytes) (context : Context) (previous : Option State)

theorem conclude_selected :
    (conclude P scope context policy previous usable now surveyed).selected =
      (chosen P policy now usable surveyed).map (·.candidate.record) := rfl

theorem conclude_next :
    (conclude P scope context policy previous usable now surveyed).next =
      { scope := scope
        context := context
        policyFingerprint := policyFingerprint P policy
        evaluatedAt := now
        members := (chosen P policy now usable surveyed).map
          (nextMember (previousMembers usable) now)
        cooldowns := nextCooldowns P policy now usable surveyed } := rfl

end

/-- The connection is selected. -/
def SelectedIn (P : Primitives R) (decision : Decision R) (ref : ConnectionRef) : Prop :=
  ∃ record ∈ decision.selected, refOf (P.identity record) = ref

/-! ## Usable states -/

section

variable {scope : Bytes} {context : Context} {policy : Policy}

/-- A usable previous state has the context's target revision. -/
theorem target_isSome_of_carried {previous : Option State} {state : State}
    (h : carried P scope context policy previous = some state) :
    context.target.revision.isSome := by
  obtain ⟨-, hguard⟩ := Option.filter_eq_some_iff.mp h
  simp only [Bool.and_eq_true, contextsEqual] at hguard
  obtain ⟨htarget, hsome⟩ := TargetRef.equal_iff.mp hguard.1.2.1.1.1
  rw [← htarget]
  exact hsome

/-- The next state of a decision is usable by the following evaluation. -/
theorem carried_next (hcontext : context.target.revision.isSome) {state : State}
    (hscope : state.scope = scope) (hstate : state.context = context)
    (hfingerprint : state.policyFingerprint = policyFingerprint P policy) :
    carried P scope context policy (some state) = some state := by
  refine Option.filter_eq_some_iff.mpr ⟨rfl, ?_⟩
  simp [hscope, hstate, hfingerprint, contextsEqual, TargetRef.equal_iff, hcontext]

end

/-! ## Where entries come from -/

section

variable {policy : Policy} {now : Time} {usable : Option State} {surveyed : List (Ranked R)}

/-- Outside an adaptive continuation nothing is retained. -/
theorem starting_of_fresh (h : ¬ (policy.strategy = .adaptive ∧ usable.isSome)) :
    starting P policy now usable surveyed = [] := by
  unfold starting retained
  dsimp only
  rw [if_neg h]

/-- An adaptive continuation retains the previous members still eligible. -/
theorem starting_of_continued (h : policy.strategy = .adaptive ∧ usable.isSome) :
    starting P policy now usable surveyed =
      truncate P policy ((previousMembers usable).filterMap fun member =>
        findRanked (rankedOf P policy.strategy surveyed) member.connection) := by
  unfold starting retained
  dsimp only
  rw [if_pos h, retain_eq]

/-- The cooldowns of an adaptive continuation: those kept, and those started. -/
theorem nextCooldowns_of_continued (hc : policy.strategy = .adaptive ∧ usable.isSome) :
    nextCooldowns P policy now usable surveyed =
      ((previousMembers usable).filter
          (failing surveyed (rankedOf P policy.strategy surveyed))).foldl
        (fun values member => upsertCooldown values ⟨member.connection, now + policy.cooldown⟩)
        (keepCooldowns policy now surveyed (rankedOf P policy.strategy surveyed)
          (previousCooldowns usable)) := by
  unfold nextCooldowns retained
  dsimp only
  rw [if_pos hc, retain_eq]

/-- Outside an adaptive continuation cooldowns are only kept. -/
theorem nextCooldowns_of_fresh (hc : ¬ (policy.strategy = .adaptive ∧ usable.isSome)) :
    nextCooldowns P policy now usable surveyed =
      keepCooldowns policy now surveyed (rankedOf P policy.strategy surveyed)
        (previousCooldowns usable) := by
  unfold nextCooldowns retained
  dsimp only
  rw [if_neg hc]

variable {selected : List (Ranked R)} {value : Ranked R}

theorem mem_of_mem_truncate (h : value ∈ truncate P policy selected) : value ∈ selected := by
  unfold truncate at h
  split at h
  · exact mem_sortSlice.mp (List.mem_of_mem_take h)
  · exact h

theorem mem_starting (h : value ∈ starting P policy now usable surveyed) :
    value ∈ rankedOf P policy.strategy surveyed := by
  by_cases hc : policy.strategy = .adaptive ∧ usable.isSome
  · rw [starting_of_continued hc] at h
    obtain ⟨member, -, hfound⟩ := List.mem_filterMap.mp (mem_of_mem_truncate h)
    exact (findRanked_some hfound).1
  · rw [starting_of_fresh hc] at h
    exact absurd h (by simp)

theorem rankedOf_subset {strategy : Strategy} (h : value ∈ rankedOf P strategy surveyed) :
    value ∈ surveyed := (mem_rankedOf.mp h).1

theorem Surveyed.filled_eq (h : Surveyed P surveyed) :
    filled P policy now usable surveyed =
      starting P policy now usable surveyed ++
        ((rankedOf P policy.strategy surveyed).filter fun value =>
          !containsRanked (starting P policy now usable surveyed) value.ref).take
            (policy.topN.toNat - (starting P policy now usable surveyed).length) :=
  h.fill_eq policy (fun _ => rankedOf_subset) (h.rankedOf_nodup _)
    fun _ hv => rankedOf_subset (mem_starting hv)

theorem Surveyed.filled_subset (h : Surveyed P surveyed)
    (hv : value ∈ filled P policy now usable surveyed) :
    value ∈ rankedOf P policy.strategy surveyed := by
  rw [h.filled_eq] at hv
  rcases List.mem_append.mp hv with hv | hv
  · exact mem_starting hv
  · exact List.mem_of_mem_filter (List.mem_of_mem_take hv)

/-- Optimising the filled selection is a replacement pass. -/
theorem Surveyed.filled_pass (h : Surveyed P surveyed) :
    Exchange.Pass (Frozen (previousMembers usable) policy now) (rankKey P .adaptive)
      (improves policy) (filled P policy now usable surveyed)
      (rankedOf P policy.strategy surveyed)
      (optimize P (filled P policy now usable surveyed) (rankedOf P policy.strategy surveyed)
        (previousMembers usable) policy now) :=
  h.optimize_pass _ _ _ (fun _ => rankedOf_subset) fun _ hv => rankedOf_subset (h.filled_subset hv)

/-- Outside an adaptive continuation the best entries are chosen. -/
theorem Surveyed.chosen_of_fresh (h : Surveyed P surveyed)
    (hc : ¬ (policy.strategy = .adaptive ∧ usable.isSome)) :
    chosen P policy now usable surveyed =
      (rankedOf P policy.strategy surveyed).take policy.topN.toNat := by
  have hfilled : filled P policy now usable surveyed =
      (rankedOf P policy.strategy surveyed).take policy.topN.toNat := by
    rw [h.filled_eq, starting_of_fresh hc]
    simp [containsRanked, findRanked]
  have hbranch : policy.strategy ≠ .adaptive ∨ usable = none := by
    rcases not_and_or.mp hc with hs | hu
    · exact Or.inl hs
    · exact Or.inr (by simpa using hu)
  change (if policy.strategy ≠ .adaptive ∨ usable = none then _ else _) = _
  rw [if_pos hbranch]
  change (if ((filled P policy now usable surveyed).length : Int) > policy.topN then
    (filled P policy now usable surveyed).take policy.topN.toNat
    else filled P policy now usable surveyed) = _
  rw [hfilled]
  split
  · rw [List.take_take, min_self]
  · rfl

/-- An adaptive continuation optimises when every slot is taken. -/
theorem chosen_of_continued (hc : policy.strategy = .adaptive ∧ usable.isSome) :
    chosen P policy now usable surveyed =
      if ((filled P policy now usable surveyed).length : Int) = policy.topN then
        optimize P (filled P policy now usable surveyed)
          (rankedOf P policy.strategy surveyed) (previousMembers usable) policy now
      else filled P policy now usable surveyed := by
  have hbranch : ¬ (policy.strategy ≠ .adaptive ∨ usable = none) := by
    rintro (hs | hu)
    · exact hs hc.1
    · exact absurd hc.2 (by simp [hu])
  change (if policy.strategy ≠ .adaptive ∨ usable = none then _ else _) = _
  rw [if_neg hbranch]
  rfl

/-- **Whatever is chosen is eligible.** -/
theorem Surveyed.chosen_subset (h : Surveyed P surveyed)
    (hv : value ∈ chosen P policy now usable surveyed) :
    value ∈ rankedOf P policy.strategy surveyed := by
  by_cases hc : policy.strategy = .adaptive ∧ usable.isSome
  · rw [chosen_of_continued hc] at hv
    split at hv
    · exact (h.filled_pass.mem_or_mem hv).elim (fun hv => h.filled_subset hv) id
    · exact h.filled_subset hv
  · rw [h.chosen_of_fresh hc] at hv
    exact List.mem_of_mem_take hv

/-! ## What is not eligible -/

/-- An entry that is not eligible is found in no ranking. -/
theorem Surveyed.findRanked_eq_none (h : Surveyed P surveyed) (hv : value ∈ surveyed)
    (hreason : value.explanation.reason ≠ .eligible) (strategy : Strategy) :
    findRanked (rankedOf P strategy surveyed) value.ref = none := by
  cases hf : findRanked (rankedOf P strategy surveyed) value.ref with
  | none => rfl
  | some entry =>
    obtain ⟨hmem, href⟩ := findRanked_some hf
    obtain ⟨hentry, heligible⟩ := mem_rankedOf.mp hmem
    rw [h.ref_injOn hentry hv href] at heligible
    exact absurd heligible hreason

/-- The cooldown of a current candidate that is not eligible is kept. -/
theorem findCooldown_keep {ranked : List (Ranked R)} (hv : value ∈ surveyed)
    (hnone : findRanked ranked value.ref = none) (cooldowns : List Cooldown) :
    findCooldown (keepCooldowns policy now surveyed ranked cooldowns) value.ref =
      findCooldown cooldowns value.ref := by
  unfold findCooldown keepCooldowns
  rw [List.find?_filter]
  congr 1
  funext cooldown
  cases heq : cooldown.connection.equal value.ref with
  | false => simp
  | true =>
    have href := (ConnectionRef.equal_iff.mp heq).1
    have hpresent : ∃ other ∈ surveyed, refKey other.ref = refKey value.ref := ⟨value, hv, rfl⟩
    simpa [href, hnone] using hpresent

/-- What is not eligible is neither selected nor a member of the next state. -/
theorem Surveyed.ref_ne_of_chosen (h : Surveyed P surveyed) (hv : value ∈ surveyed)
    (hreason : value.explanation.reason ≠ .eligible) {other : Ranked R}
    (hother : other ∈ chosen P policy now usable surveyed) :
    other.ref ≠ value.ref := by
  intro href
  obtain ⟨hmem, heligible⟩ := mem_rankedOf.mp (h.chosen_subset hother)
  rw [h.ref_injOn hmem hv href] at heligible
  exact hreason heligible

/-! ## How many are chosen -/

/-- No connection occurs twice among the carried members. -/
def DistinctMembers (usable : Option State) : Prop :=
  ((previousMembers usable).map Member.connection).Nodup

theorem length_truncate_le : (truncate P policy selected).length ≤ policy.topN.toNat := by
  unfold truncate
  split
  · exact List.length_take_le _ _
  · omega

theorem nodup_truncate (h : selected.Nodup) : (truncate P policy selected).Nodup := by
  unfold truncate
  split
  · exact ((sortSlice_perm _ _).nodup_iff.mpr h).sublist (List.take_sublist _ _)
  · exact h

theorem length_starting_le :
    (starting P policy now usable surveyed).length ≤ policy.topN.toNat := by
  by_cases hc : policy.strategy = .adaptive ∧ usable.isSome
  · rw [starting_of_continued hc]
    exact length_truncate_le
  · rw [starting_of_fresh hc]
    exact Nat.zero_le _

theorem nodup_starting (hdistinct : DistinctMembers usable) :
    (starting P policy now usable surveyed).Nodup := by
  by_cases hc : policy.strategy = .adaptive ∧ usable.isSome
  · rw [starting_of_continued hc]
    refine nodup_truncate ?_
    -- two members that find the same entry have the same connection
    have hmap := List.filterMap_map (f := Member.connection)
      (g := findRanked (rankedOf P policy.strategy surveyed)) (l := previousMembers usable)
    rw [show (fun member : Member => findRanked (rankedOf P policy.strategy surveyed)
      member.connection) = findRanked (rankedOf P policy.strategy surveyed) ∘ Member.connection
      from rfl, ← hmap]
    refine hdistinct.filterMap fun ref ref' entry h h' => ?_
    rw [← (findRanked_some h).2, (findRanked_some h').2]
  · rw [starting_of_fresh hc]
    exact List.nodup_nil

section

variable (h : Surveyed P surveyed) (hdistinct : DistinctMembers usable)
include h hdistinct

theorem Surveyed.nodup_filled : (filled P policy now usable surveyed).Nodup := by
  rw [h.filled_eq]
  refine List.nodup_append'.mpr ⟨nodup_starting hdistinct,
    ((h.rankedOf_nodup _).filter _).sublist (List.take_sublist _ _), fun value hv hv' => ?_⟩
  obtain ⟨hmem, hnot⟩ := List.mem_filter.mp (List.mem_of_mem_take hv')
  rw [(h.containsRanked_iff_mem (fun _ hw => rankedOf_subset (mem_starting hw))
    (rankedOf_subset hmem)).mpr hv] at hnot
  exact absurd hnot (by simp)

/-- Filling takes as many entries as there are slots or eligible candidates. -/
theorem Surveyed.length_filled :
    (filled P policy now usable surveyed).length =
      min policy.topN.toNat (rankedOf P policy.strategy surveyed).length := by
  set ranked := rankedOf P policy.strategy surveyed with hranked
  set start := starting P policy now usable surveyed with hstart
  have hle : start.length ≤ policy.topN.toNat := length_starting_le
  have hinside : (ranked.filter fun value => containsRanked start value.ref).Perm start := by
    refine (List.perm_ext_iff_of_nodup ((h.rankedOf_nodup _).filter _)
      (nodup_starting hdistinct)).mpr fun value => ?_
    rw [List.mem_filter]
    constructor
    · rintro ⟨hmem, hc⟩
      exact (h.containsRanked_iff_mem (fun _ hw => rankedOf_subset (mem_starting hw))
        (rankedOf_subset hmem)).mp hc
    · intro hv
      exact ⟨mem_starting hv, (h.containsRanked_iff_mem
        (fun _ hw => rankedOf_subset (mem_starting hw))
        (rankedOf_subset (mem_starting hv))).mpr hv⟩
  have hsplit := List.length_eq_length_filter_add (l := ranked)
    fun value => containsRanked start value.ref
  rw [hinside.length_eq] at hsplit
  rw [h.filled_eq, ← hstart, ← hranked, List.length_append, List.length_take]
  omega

/-- What the replacement pass over the filled selection preserves. -/
theorem Surveyed.optimized_inv (hadaptive : policy.strategy = .adaptive) :
    Exchange.Inv (Frozen (previousMembers usable) policy now) (rankKey P .adaptive)
      (improves policy) (filled P policy now usable surveyed)
      (rankedOf P policy.strategy surveyed)
      (optimize P (filled P policy now usable surveyed) (rankedOf P policy.strategy surveyed)
        (previousMembers usable) policy now) := by
  have hsorted := h.rankedOf_sorted policy.strategy
  rw [hadaptive] at hsorted
  refine Exchange.Pass.inv (rankKey_lt_of_improves P policy) (h.rankKey_injOn .adaptive)
    (h.nodup_filled hdistinct) (fun _ hv => rankedOf_subset (h.filled_subset hv))
    (fun _ hv => rankedOf_subset hv) ?_
    h.filled_pass
  rw [hadaptive]
  exact hsorted

theorem Surveyed.nodup_chosen : (chosen P policy now usable surveyed).Nodup := by
  by_cases hc : policy.strategy = .adaptive ∧ usable.isSome
  · rw [chosen_of_continued hc]
    split
    · exact (h.optimized_inv hdistinct hc.1).nodup
    · exact h.nodup_filled hdistinct
  · rw [h.chosen_of_fresh hc]
    exact (h.rankedOf_nodup _).sublist (List.take_sublist _ _)

/-- **As many entries are chosen** as there are slots or eligible candidates. -/
theorem Surveyed.length_chosen :
    (chosen P policy now usable surveyed).length =
      min policy.topN.toNat (rankedOf P policy.strategy surveyed).length := by
  by_cases hc : policy.strategy = .adaptive ∧ usable.isSome
  · rw [chosen_of_continued hc]
    split
    · rw [(h.optimized_inv hdistinct hc.1).length_eq, h.length_filled hdistinct]
    · exact h.length_filled hdistinct
  · rw [h.chosen_of_fresh hc, List.length_take]

end

end

end Egressfox.Selection
