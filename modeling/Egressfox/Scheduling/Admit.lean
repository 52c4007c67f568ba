import Egressfox.Scheduling.State

/-!
# Admission to the cohort

What `admitID` does, and what a series of admissions does.

A member that yields its slot is either one that M5 rejected, and then it is forgotten by
every demand, or one that no demand names.  So admission never takes a demanded endpoint
out of the cohort (`Covered.admitID`).

When a selection is admitted, a slot has to be found for each of its endpoints.  This is a
counting argument: the members that are protected all belong to a list of at most
`capacity` endpoints that also holds the one to be admitted, so in a full cohort some
member is not protected (`exists_victim`).
-/

namespace Egressfox.Scheduling

open Lib Artifact Selection

variable {R : Type}

/-! ## Demanded endpoints -/

/-- Some Gateway's demand names the endpoint. -/
def Demanded (s : ProbeState R) (id : Bytes) : Prop :=
  ∃ gateway demand, s.demand.lookup gateway = some demand ∧ id ∈ demand.ids

variable {s : ProbeState R} {id other : Bytes} {C : Catalog R} {selected : Bool} {capacity : Int}
  {needed : List Bytes}

theorem isProtected_iff : s.isProtected id = true ↔ id ∉ s.rejected ∧ Demanded s id := by
  simp [ProbeState.isProtected, Assoc.any_iff, Demanded]

/-- The endpoint a loss takes out of the cohort. -/
def Loss.departed : Loss R → Option Bytes
  | .vanished id _ => some id
  | .displaced id => some id
  | .forgotten _ _ => none
  | .expired _ => none

/-- How the endpoint last left the cohort. -/
def lastDeparture (losses : List (Loss R)) (id : Bytes) : Option (Loss R) :=
  losses.find? fun loss => loss.departed = some id

/-- The endpoint last left the cohort in a round over records none of which is compatible
and has its ID. -/
def Gone (C : Catalog R) (s : ProbeState R) (id : Bytes) : Prop :=
  ∃ records, lastDeparture s.losses id = some (.vanished id records) ∧
    ∀ record ∈ records, C.compatible record = true → C.id record ≠ id

/-- Every demanded endpoint is maintained, unless it is gone from the inventory. -/
def Covered (C : Catalog R) (s : ProbeState R) : Prop :=
  ∀ id, Demanded s id → id ∈ s.cohort ∨ Gone C s id

theorem lastDeparture_append {losses : List (Loss R)} {recent : List (Loss R)}
    (h : ∀ loss ∈ recent, loss.departed ≠ some id) :
    lastDeparture (recent ++ losses) id = lastDeparture losses id := by
  have hnone : recent.find? (fun loss => loss.departed = some id) = none := by
    rw [List.find?_eq_none]
    intro loss hloss
    simpa using h loss hloss
  rw [lastDeparture, List.find?_append, hnone]
  rfl

/-- Losses that are not departures of the endpoint do not matter for it. -/
theorem Gone.append {s' : ProbeState R} (h : Gone C s id) (recent : List (Loss R))
    (hlosses : s'.losses = recent ++ s.losses) (hrecent : ∀ loss ∈ recent, loss.departed ≠ some id)
    : Gone C s' id := by
  obtain ⟨records, hlast, hnone⟩ := h
  refine ⟨records, ?_, hnone⟩
  rw [hlosses, lastDeparture_append hrecent, hlast]

/-! ## Eviction -/

theorem mem_ids_without {demand : Demand} :
    other ∈ (ProbeState.without id demand).ids ↔ other ∈ demand.ids ∧ other ≠ id := by
  cases huncertain : demand.uncertain <;>
    simp [ProbeState.without, Demand.ids, huncertain, or_and_right]

@[simp] theorem evict_cohort (s : ProbeState R) (id : Bytes) :
    (s.evict id).cohort = s.cohort.erase id := by
  unfold ProbeState.evict
  split_ifs <;> rfl

@[simp] theorem evict_rejected (s : ProbeState R) (id : Bytes) :
    (s.evict id).rejected = s.rejected.filter (· ≠ id) := by
  unfold ProbeState.evict
  split_ifs <;> rfl

theorem evict_lookup (s : ProbeState R) (id gateway : Bytes) :
    (s.evict id).demand.lookup gateway =
      if id ∈ s.rejected then (s.demand.lookup gateway).map (ProbeState.without id)
      else s.demand.lookup gateway := by
  unfold ProbeState.evict
  split_ifs with hrejected
  · exact Assoc.lookup_mapValues _ _ _
  · rfl

/-- The losses of an eviction: the member is displaced, and if it was rejected, forgotten. -/
theorem evict_losses (s : ProbeState R) (id : Bytes) :
    ∃ forgotten, (∀ loss ∈ forgotten, loss.departed = none) ∧
      (s.evict id).losses = .displaced id :: (forgotten ++ s.losses) := by
  unfold ProbeState.evict
  split_ifs
  · refine ⟨_, ?_, rfl⟩
    intro loss hloss
    obtain ⟨entry, -, rfl⟩ := List.mem_map.mp hloss
    rfl
  · exact ⟨[], by simp, rfl⟩

theorem demanded_of_evict (h : Demanded (s.evict id) other) : Demanded s other := by
  obtain ⟨gateway, demand, hlookup, hmem⟩ := h
  rw [evict_lookup] at hlookup
  split_ifs at hlookup
  · obtain ⟨old, hold, rfl⟩ := Option.map_eq_some_iff.mp hlookup
    exact ⟨gateway, old, hold, (mem_ids_without.mp hmem).1⟩
  · exact ⟨gateway, demand, hlookup, hmem⟩

/-- A rejected member is forgotten when it is evicted. -/
theorem not_demanded_evict (h : id ∈ s.rejected) : ¬ Demanded (s.evict id) id := by
  rintro ⟨gateway, demand, hlookup, hmem⟩
  rw [evict_lookup, if_pos h] at hlookup
  obtain ⟨old, -, rfl⟩ := Option.map_eq_some_iff.mp hlookup
  exact (mem_ids_without.mp hmem).2 rfl

/-- Nothing else is forgotten. -/
theorem demanded_evict (h : Demanded s other) (hkept : other = id → id ∉ s.rejected) :
    Demanded (s.evict id) other := by
  obtain ⟨gateway, demand, hlookup, hmem⟩ := h
  by_cases hrejected : id ∈ s.rejected
  · refine ⟨gateway, ProbeState.without id demand, ?_, ?_⟩
    · rw [evict_lookup, if_pos hrejected, hlookup]
      rfl
    · exact mem_ids_without.mpr ⟨hmem, fun heq => hkept heq hrejected⟩
  · refine ⟨gateway, demand, ?_, hmem⟩
    rw [evict_lookup, if_neg hrejected, hlookup]

/-- The member that yields is in the cohort, and is rejected or not demanded. -/
theorem victim_spec (h : s.victim selected = some id) :
    id ∈ s.cohort ∧ (id ∈ s.rejected ∨ ¬ Demanded s id) := by
  unfold ProbeState.victim at h
  cases hfind : s.cohort.find? (· ∈ s.rejected) with
  | some rejected =>
    rw [hfind] at h
    obtain rfl := Option.some.inj h
    refine ⟨List.mem_of_find?_eq_some hfind, .inl ?_⟩
    simpa using List.find?_some hfind
  | none =>
    rw [hfind] at h
    dsimp only at h
    split_ifs at h
    have hmem := List.mem_of_find?_eq_some h
    have hnot : id ∉ s.rejected := by simpa using List.find?_eq_none.mp hfind id hmem
    refine ⟨hmem, .inr fun hdemanded => ?_⟩
    have hprotected : s.isProtected id = true := isProtected_iff.mpr ⟨hnot, hdemanded⟩
    simpa [hprotected] using List.find?_some h

/-- So a member that yields is not demanded afterwards. -/
theorem not_demanded_of_victim (h : s.victim selected = some id) : ¬ Demanded (s.evict id) id := by
  rcases (victim_spec h).2 with hrejected | hnot
  · exact not_demanded_evict hrejected
  · exact fun hdemanded => hnot (demanded_of_evict hdemanded)

/-! ## One admission -/

/-- What `admitID` can do: nothing, append, or replace a member. -/
theorem admit_cases (s : ProbeState R) (id : Bytes) (capacity : Int) (selected : Bool) :
    (s.admitID id capacity selected = s ∧
      (id ∈ s.cohort ∨ capacity ≤ s.cohort.length ∧ s.victim selected = none)) ∨
    (id ∉ s.cohort ∧ s.cohort.length < capacity ∧
      s.admitID id capacity selected = { s with cohort := s.cohort ++ [id] }) ∨
    ∃ evicted, id ∉ s.cohort ∧ capacity ≤ s.cohort.length ∧ s.victim selected = some evicted ∧
      s.admitID id capacity selected =
        { s.evict evicted with cohort := (s.evict evicted).cohort ++ [id] } := by
  unfold ProbeState.admitID
  by_cases hmem : id ∈ s.cohort
  · exact .inl ⟨if_pos hmem, .inl hmem⟩
  rw [if_neg hmem]
  by_cases hfull : capacity ≤ s.cohort.length
  · rw [if_pos hfull]
    cases hvictim : s.victim selected with
    | none => exact .inl ⟨rfl, .inr ⟨hfull, rfl⟩⟩
    | some evicted => exact .inr (.inr ⟨evicted, hmem, hfull, rfl, rfl⟩)
  · rw [if_neg hfull]
    exact .inr (.inl ⟨hmem, not_le.mp hfull, rfl⟩)

/-- The cohort has no duplicates and fits. -/
structure Bounded (capacity : Int) (s : ProbeState R) : Prop where
  nodup : s.cohort.Nodup
  length_le : s.cohort.length ≤ capacity

theorem nodup_append_singleton {l : List Bytes} (h : l.Nodup) (hid : id ∉ l) :
    (l ++ [id]).Nodup := by
  rw [List.nodup_append_comm]
  exact List.nodup_cons.mpr ⟨hid, h⟩

theorem Bounded.admitID (h : Bounded capacity s) (id : Bytes) (selected : Bool) :
    Bounded capacity (s.admitID id capacity selected) := by
  rcases admit_cases s id capacity selected with
    ⟨heq, -⟩ | ⟨hmem, hlt, heq⟩ | ⟨evicted, hmem, -, hvictim, heq⟩
  · rw [heq]
    exact h
  · rw [heq]
    refine ⟨nodup_append_singleton h.nodup hmem, ?_⟩
    rw [List.length_append, List.length_singleton]
    omega
  · rw [heq]
    have hin := (victim_spec hvictim).1
    have hlength := List.length_erase_of_mem hin
    have hpos := List.length_pos_of_mem hin
    have hle := h.length_le
    refine ⟨?_, ?_⟩
    · rw [evict_cohort]
      exact nodup_append_singleton (h.nodup.erase evicted) fun hid =>
        hmem (List.mem_of_mem_erase hid)
    · rw [evict_cohort, List.length_append, List.length_singleton]
      omega

theorem demanded_of_admitID (h : Demanded (s.admitID id capacity selected) other) :
    Demanded s other := by
  rcases admit_cases s id capacity selected with
    ⟨heq, -⟩ | ⟨-, -, heq⟩ | ⟨evicted, -, -, -, heq⟩
  · rwa [heq] at h
  · rw [heq] at h
    exact h
  · rw [heq] at h
    exact demanded_of_evict h

/-- **A demanded endpoint stays in the cohort.** -/
theorem mem_cohort_admitID (h : other ∈ s.cohort)
    (hdemanded : Demanded (s.admitID id capacity selected) other) :
    other ∈ (s.admitID id capacity selected).cohort := by
  rcases admit_cases s id capacity selected with
    ⟨heq, -⟩ | ⟨-, -, heq⟩ | ⟨evicted, -, -, hvictim, heq⟩
  · rwa [heq]
  · rw [heq]
    exact List.mem_append_left _ h
  · rw [heq] at hdemanded ⊢
    have hne : other ≠ evicted := by
      rintro rfl
      exact not_demanded_of_victim hvictim hdemanded
    rw [evict_cohort]
    exact List.mem_append_left _ ((List.mem_erase_of_ne hne).mpr h)

/-- An endpoint that is gone stays gone as long as it is demanded. -/
theorem Gone.admitID (h : Gone C s other)
    (hdemanded : Demanded (s.admitID id capacity selected) other) :
    Gone C (s.admitID id capacity selected) other := by
  rcases admit_cases s id capacity selected with
    ⟨heq, -⟩ | ⟨-, -, heq⟩ | ⟨evicted, -, -, hvictim, heq⟩
  · rwa [heq]
  · rw [heq]
    exact h
  · rw [heq] at hdemanded ⊢
    obtain ⟨forgotten, hforgotten, hlosses⟩ := evict_losses s evicted
    refine h.append (.displaced evicted :: forgotten) hlosses ?_
    intro loss hloss
    rcases List.mem_cons.mp hloss with rfl | hloss
    · intro hdeparted
      obtain rfl := Option.some.inj hdeparted
      exact not_demanded_of_victim hvictim hdemanded
    · rw [hforgotten loss hloss]
      simp

theorem Covered.admitID (h : Covered C s) (id : Bytes) (capacity : Int) (selected : Bool) :
    Covered C (s.admitID id capacity selected) := by
  intro other hdemanded
  rcases h other (demanded_of_admitID hdemanded) with hmem | hgone
  · exact .inl (mem_cohort_admitID hmem hdemanded)
  · exact .inr (hgone.admitID hdemanded)

/-! ## Admitting a selection -/

/-- Rejections are only lifted. -/
theorem rejected_of_admitID (h : other ∈ (s.admitID id capacity selected).rejected) :
    other ∈ s.rejected := by
  rcases admit_cases s id capacity selected with
    ⟨heq, -⟩ | ⟨-, -, heq⟩ | ⟨evicted, -, -, -, heq⟩
  · rwa [heq] at h
  · rw [heq] at h
    exact h
  · rw [heq, evict_rejected] at h
    exact List.mem_of_mem_filter h

/-- Only rejected endpoints are forgotten. -/
theorem demanded_admitID (h : Demanded s other) (hrejected : other ∉ s.rejected) :
    Demanded (s.admitID id capacity selected) other := by
  rcases admit_cases s id capacity selected with
    ⟨heq, -⟩ | ⟨-, -, heq⟩ | ⟨evicted, -, -, -, heq⟩
  · rwa [heq]
  · rw [heq]
    exact h
  · rw [heq]
    exact demanded_evict h fun heq => heq ▸ hrejected

/-- A member that is still protected was so before, or is the one admitted. -/
theorem protected_of_admitID (hnodup : s.cohort.Nodup)
    (hmem : other ∈ (s.admitID id capacity selected).cohort)
    (h : (s.admitID id capacity selected).isProtected other = true) :
    other = id ∨ other ∈ s.cohort ∧ s.isProtected other = true := by
  rw [isProtected_iff] at h
  have hdemanded := demanded_of_admitID h.2
  rcases admit_cases s id capacity selected with
    ⟨heq, -⟩ | ⟨-, -, heq⟩ | ⟨evicted, -, -, -, heq⟩
  · rw [heq] at h hmem
    exact .inr ⟨hmem, isProtected_iff.mpr h⟩
  · rw [heq] at h hmem
    rcases List.mem_append.mp hmem with hmem | hid
    · exact .inr ⟨hmem, isProtected_iff.mpr ⟨h.1, hdemanded⟩⟩
    · exact .inl (List.mem_singleton.mp hid)
  · rw [heq] at h hmem
    rw [evict_cohort] at hmem
    rcases List.mem_append.mp hmem with hmem | hid
    · have hne : other ≠ evicted := by
        rintro rfl
        exact hnodup.not_mem_erase hmem
      have hrejected : other ∉ s.rejected := by
        intro hr
        apply h.1
        rw [evict_rejected]
        exact List.mem_filter.mpr ⟨hr, by simpa using hne⟩
      exact .inr ⟨List.mem_of_mem_erase hmem, isProtected_iff.mpr ⟨hrejected, hdemanded⟩⟩
    · exact .inl (List.mem_singleton.mp hid)

/-- **In a full cohort some member can yield.**  The protected members and the endpoint to
be admitted all belong to a list that is not longer than the capacity. -/
theorem exists_victim (hnodup : s.cohort.Nodup) (hneeded : needed.length ≤ capacity)
    (hprotected : ∀ other ∈ s.cohort, s.isProtected other = true → other ∈ needed)
    (hid : id ∈ needed) (hmem : id ∉ s.cohort) (hfull : capacity ≤ s.cohort.length) :
    s.victim true ≠ none := by
  intro hnone
  have hall : ∀ other ∈ s.cohort, s.isProtected other = true := by
    unfold ProbeState.victim at hnone
    split at hnone
    · cases hnone
    · intro other hother
      simpa using List.find?_eq_none.mp hnone other hother
  have hsubset : (id :: s.cohort) ⊆ needed := by
    intro other hother
    rcases List.mem_cons.mp hother with rfl | hother
    · exact hid
    · exact hprotected other hother (hall other hother)
  have hle := ((List.nodup_cons.mpr ⟨hmem, hnodup⟩).subperm hsubset).length_le
  rw [List.length_cons] at hle
  omega

theorem mem_cohort_admit_self (h : s.cohort.length < capacity ∨ s.victim selected ≠ none) :
    id ∈ (s.admitID id capacity selected).cohort := by
  rcases admit_cases s id capacity selected with
    ⟨heq, hmem | ⟨hfull, hnone⟩⟩ | ⟨-, -, heq⟩ | ⟨evicted, -, -, -, heq⟩
  · rwa [heq]
  · rcases h with hlt | hsome
    · omega
    · exact absurd hnone hsome
  · rw [heq]
    exact List.mem_append_right _ (List.mem_singleton_self id)
  · rw [heq]
    exact List.mem_append_right _ (List.mem_singleton_self id)

/-- Admit the endpoints of a selection one after the other. -/
def admitAll (capacity : Int) (s : ProbeState R) (ids : List Bytes) : ProbeState R :=
  ids.foldl (fun s id => s.admitID id capacity true) s

/-- What holds while the endpoints `rest` of a selection are still to be admitted and those
of `done` have been. -/
structure Admitting (C : Catalog R) (capacity : Int) (needed done rest : List Bytes)
    (s : ProbeState R) : Prop where
  bounded : Bounded capacity s
  fits : needed.length ≤ capacity
  rest_needed : ∀ id ∈ rest, id ∈ needed
  isProtected : ∀ id ∈ s.cohort, s.isProtected id = true → id ∈ needed
  covered : ∀ id, Demanded s id → id ∈ s.cohort ∨ Gone C s id ∨ id ∈ rest
  admitted : ∀ id ∈ done, Demanded s id → id ∈ s.cohort

theorem Admitting.step {done rest : List Bytes}
    (h : Admitting C capacity needed done (id :: rest) s) :
    Admitting C capacity needed (id :: done) rest (s.admitID id capacity true) := by
  have hid : id ∈ needed := h.rest_needed id (by simp)
  have hself : id ∈ (s.admitID id capacity true).cohort := by
    by_cases hmem : id ∈ s.cohort
    · rcases admit_cases s id capacity true with ⟨heq, -⟩ | ⟨hnot, -⟩ | ⟨_, hnot, -⟩
      · rwa [heq]
      all_goals exact absurd hmem hnot
    · apply mem_cohort_admit_self
      by_cases hfull : s.cohort.length < capacity
      · exact .inl hfull
      · exact .inr (exists_victim h.bounded.nodup h.fits h.isProtected hid hmem (not_lt.mp hfull))
  refine ⟨h.bounded.admitID id true, h.fits,
    fun other hother => h.rest_needed other (by simp [hother]), ?_, ?_, ?_⟩
  · intro other hother hprotected
    rcases protected_of_admitID h.bounded.nodup hother hprotected with rfl | ⟨hmem, hold⟩
    · exact hid
    · exact h.isProtected other hmem hold
  · intro other hdemanded
    rcases h.covered other (demanded_of_admitID hdemanded) with hmem | hgone | hrest
    · exact .inl (mem_cohort_admitID hmem hdemanded)
    · exact .inr (.inl (hgone.admitID hdemanded))
    · rcases List.mem_cons.mp hrest with rfl | hrest
      · exact .inl hself
      · exact .inr (.inr hrest)
  · intro other hother hdemanded
    rcases List.mem_cons.mp hother with rfl | hother
    · exact hself
    · exact mem_cohort_admitID (h.admitted other hother (demanded_of_admitID hdemanded)) hdemanded

/-- A whole selection is admitted. -/
theorem Admitting.run {done rest : List Bytes} (h : Admitting C capacity needed done rest s) :
    Admitting C capacity needed (rest.reverse ++ done) [] (admitAll capacity s rest) := by
  induction rest generalizing s done with
  | nil => exact h
  | cons id rest ih => simpa [admitAll] using ih h.step

/-- What is demanded and not rejected is still demanded after the admissions. -/
theorem demanded_admitAll {ids : List Bytes} (h : Demanded s id) (hrejected : id ∉ s.rejected) :
    Demanded (admitAll capacity s ids) id := by
  induction ids generalizing s with
  | nil => exact h
  | cons first ids ih =>
    exact ih (demanded_admitID h hrejected) fun hr => hrejected (rejected_of_admitID hr)

end Egressfox.Scheduling
