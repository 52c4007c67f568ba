import Egressfox.Scheduling.Rounds

/-!
# Gateway reconciliations

What one `Pipeline.Run` does to the scheduling state of its context, from settling an
uncertain write to concluding the reservation of its decision.  Everything outside the
state is an argument: whether the output can be read, the inventory, how the round goes,
the decisions of M5 and how the publication ends.

`demand_maintained` is about any sequence of such reconciliations, by any Gateways.
Between them no demand is pending and every demanded endpoint is maintained, unless it is
gone from the inventory.
-/

namespace Egressfox.Scheduling

open Lib Artifact Selection

variable {R T : Type}

/-- How a granted round goes. -/
inductive RoundRun where
  /-- The jobs cannot be scheduled. -/
  | failed
  /-- The jobs have these results; the evidence is stored, with the overload flag, or not. -/
  | executed (results : List ProbeResult) (stored : Option Bool)

/-- The second planning, among maintained endpoints. -/
inductive Replan (R : Type) where
  | failed
  | empty (decision : Decision R)
  | planned (decision : Decision R)

/-- The planning, and what follows if its decision is refused. -/
inductive Plan (R : Type) where
  | failed
  | empty (decision : Decision R)
  | planned (decision : Decision R) (again : Replan R)

/-- How a reconciliation with a reservation ends. -/
inductive Outcome where
  /-- Published and durably committed. -/
  | published
  /-- Written, or possibly written, without confirmation. -/
  | unconfirmed (intended : Option Receipt)
  /-- Failed before any external write. -/
  | failed

/-- The inputs of one reconciliation. -/
structure Reconciliation (R T : Type) where
  gateway : Bytes
  /-- Whether the current output has the given receipt, if it can be read. -/
  published : Option Receipt → Option Bool
  records : List R
  target : T
  roundAt : Time
  refresh : Duration
  round : RoundRun
  touchedAt : Time
  decidedAt : Time
  plan : Plan R
  outcome : Decision R → Outcome

/-- Reserve the decision of a plan. -/
def reservePlan (C : Catalog R) (name : Bytes) (s : ProbeState R) (gateway : Bytes) (now : Time) :
    Plan R → ProbeState R × Option (Reservation × Decision R)
  | .failed => (s, none)
  | .empty decision => (s.observeVerdicts decision, none)
  | .planned decision again =>
    match reserveSelection C name s gateway decision now with
    | (s, .ok reservation) => (s, some (reservation, decision))
    | (s, .error _) =>
      match again with
      | .failed => (s, none)
      | .empty decision => (s.observeVerdicts decision, none)
      | .planned decision =>
        match reserveSelection C name s gateway decision now with
        | (s, .ok reservation) => (s, some (reservation, decision))
        | (s, .error _) => (s, none)

/-- The probe round of a reconciliation, and whether the reconciliation goes on. -/
def probeStep (C : Catalog R) (name : Bytes) (probes : Option (ProbeState R))
    (rec : Reconciliation R T) : ProbeState R × Bool :=
  match budgetedJobs C name probes rec.records rec.target rec.roundAt rec.refresh with
  | (s, none) => (s, true)
  | (s, some round) =>
    match rec.round with
    | .failed => (abandonRound s round, false)
    | .executed results stored =>
      let s := recordProbeResults C name s (round.explore ++ round.maintain) results
      match stored with
      | none => (abandonRound s round, false)
      | some overloaded => (completeRound s round overloaded, true)

/-- A reconciliation up to the conclusion of its reservation, if it made one. -/
def beforeConclusion (C : Catalog R) (name : Bytes) (probes : Option (ProbeState R))
    (rec : Reconciliation R T) : ProbeState R × Option (Reservation × Decision R) :=
  let probes := probes.map fun s => resolveUncertain s rec.gateway rec.published
  match probeStep C name probes rec with
  | (s, false) => (s, none)
  | (s, true) =>
    reservePlan C name (touchDemand s rec.gateway rec.touchedAt) rec.gateway rec.decidedAt rec.plan

/-- The conclusion of a reservation. -/
def conclude (name : Bytes) (s : ProbeState R) (reservation : Reservation) (now : Time) :
    Outcome → ProbeState R
  | .published => commitSelection name s reservation
  | .unconfirmed intended => holdUncertain name s reservation intended now
  | .failed => releaseSelection s reservation

/-- One reconciliation. -/
def reconcile (C : Catalog R) (name : Bytes) (probes : Option (ProbeState R))
    (rec : Reconciliation R T) : ProbeState R :=
  match beforeConclusion C name probes rec with
  | (s, none) => s
  | (s, some (reservation, decision)) =>
    conclude name s reservation rec.decidedAt (rec.outcome decision)

/-- What happens to a context: reconciliations in it, one after the other, Gateways that move
on to another context, and expiry. -/
inductive Step (R T : Type) where
  | reconcile (rec : Reconciliation R T)
  | leave (gateway : Bytes)
  | expire

def Step.run (C : Catalog R) (name : Bytes) (probes : Option (ProbeState R)) :
    Step R T → Option (ProbeState R)
  | .reconcile rec => some (Scheduling.reconcile C name probes rec)
  | .leave gateway => probes.map fun s => leaveDemand s gateway
  | .expire => none

/-! ## The invariant -/

/-- What holds between reconciliations. -/
structure Inv (C : Catalog R) (name : Bytes) (s : ProbeState R) : Prop where
  bounded : Bounded (cohortCapacity name) s
  not_pending : ∀ gateway demand, s.demand.lookup gateway = some demand → demand.pending = false
  covered : Covered C s

theorem Inv.zero (C : Catalog R) (name : Bytes) : Inv C name .zero where
  bounded := .zero name
  not_pending := by
    intro gateway demand h
    rw [ProbeState.zero, AList.lookup_empty] at h
    cases h
  covered := by
    rintro id ⟨gateway, demand, h, -⟩
    rw [ProbeState.zero, AList.lookup_empty] at h
    cases h

variable {C : Catalog R} {name gateway id : Bytes} {s s' v : ProbeState R} {demand' : Demand}
  {probes : Option (ProbeState R)} {reservation : Reservation} {selected : List Bytes}

/-- The cohort stays, and demands only shrink. -/
theorem Inv.shrink (h : Inv C name s) (hcohort : s'.cohort = s.cohort) (recent : List (Loss R))
    (hlosses : s'.losses = recent ++ s.losses) (hrecent : ∀ loss ∈ recent, loss.departed = none)
    (hdemand : ∀ gateway demand', s'.demand.lookup gateway = some demand' →
      ∃ demand, s.demand.lookup gateway = some demand ∧ demand'.pending = demand.pending ∧
        ∀ id ∈ demand'.ids, id ∈ demand.ids)
    : Inv C name s' where
  bounded := h.bounded.of_cohort_eq hcohort
  not_pending := by
    intro gateway demand' hlookup
    obtain ⟨demand, hold, hpending, -⟩ := hdemand gateway demand' hlookup
    rw [hpending]
    exact h.not_pending gateway demand hold
  covered := by
    rintro id ⟨gateway, demand', hlookup, hid⟩
    obtain ⟨demand, hold, -, hsubset⟩ := hdemand gateway demand' hlookup
    rcases h.covered id ⟨gateway, demand, hold, hsubset id hid⟩ with hmem | hgone
    · rw [hcohort]
      exact .inl hmem
    · refine .inr (hgone.append recent hlosses fun loss hloss => ?_)
      rw [hrecent loss hloss]
      simp

/-- The same demands, with nothing else that matters changed. -/
theorem Inv.congr (h : Inv C name s) (hcohort : s'.cohort = s.cohort)
    (hlosses : s'.losses = s.losses) (hdemand : s'.demand = s.demand) : Inv C name s' := by
  refine h.shrink hcohort [] (by simpa using hlosses) (by simp) ?_
  intro gateway demand hlookup
  rw [hdemand] at hlookup
  exact ⟨demand, hlookup, rfl, fun id hid => hid⟩

/-! ## The operations without a reservation -/

/-- One demand is replaced by a smaller one. -/
theorem Inv.insert (h : Inv C name s) {demand : Demand}
    (hlookup : s.demand.lookup gateway = some demand) (hpending : demand'.pending = demand.pending)
    (hids : ∀ id ∈ demand'.ids, id ∈ demand.ids) (hcohort : s'.cohort = s.cohort)
    (hlosses : s'.losses = s.losses) (hdemand : s'.demand = s.demand.insert gateway demand') :
    Inv C name s' := by
  refine h.shrink hcohort [] (by simpa using hlosses) (by simp) ?_
  intro other d hother
  rw [hdemand] at hother
  by_cases heq : other = gateway
  · subst heq
    rw [AList.lookup_insert] at hother
    obtain rfl := Option.some.inj hother
    exact ⟨demand, hlookup, hpending, hids⟩
  · rw [AList.lookup_insert_ne heq] at hother
    exact ⟨d, hother, rfl, fun id hid => hid⟩

theorem Inv.settles (h : Inv C name s) (hsettles : Settles gateway s s') : Inv C name s' := by
  rcases hsettles with rfl | ⟨demand, ids, hlookup, huncertain, written, rfl⟩
  · exact h
  · refine h.insert hlookup ?_ ?_ rfl rfl rfl
    · rfl
    · intro id hid
      rw [Demand.ids, huncertain, List.mem_append]
      cases written with
      | true => exact .inr (by simpa [Demand.ids] using hid)
      | false => exact .inl (by simpa [Demand.ids] using hid)

theorem vanishedFrom_departed {records : List R} {cohort : List Bytes} {loss : Loss R}
    (h : loss ∈ vanishedFrom C records cohort) :
    ∃ id, loss = .vanished id records ∧ id ∈ cohort ∧ compatibleRecord C records id = none := by
  obtain ⟨id, hid, rfl⟩ := List.mem_map.mp h
  rw [List.mem_filter, Option.isNone_iff_eq_none] at hid
  exact ⟨id, rfl, hid.1, hid.2⟩

/-- A member without a compatible record is gone after the round. -/
theorem gone_of_vanished {records : List R} {cohort : List Bytes} {losses : List (Loss R)}
    (hlosses : s'.losses = vanishedFrom C records cohort ++ losses) (hmem : id ∈ cohort)
    (hnone : compatibleRecord C records id = none) : Gone C s' id := by
  refine ⟨records, ?_, fun record hrecord hcompatible =>
    compatibleRecord_eq_none hnone hrecord hcompatible⟩
  have hin : .vanished id records ∈ vanishedFrom C records cohort :=
    List.mem_map.mpr ⟨id, List.mem_filter.mpr ⟨hmem, by simpa using hnone⟩, rfl⟩
  rw [hlosses, lastDeparture, List.find?_append]
  cases hfind : (vanishedFrom C records cohort).find? fun loss => loss.departed = some id with
  | none =>
    have := List.find?_eq_none.mp hfind _ hin
    simp [Loss.departed] at this
  | some loss =>
    obtain ⟨other, rfl, -, -⟩ := vanishedFrom_departed (List.mem_of_find?_eq_some hfind)
    obtain rfl : other = id := by simpa [Loss.departed] using List.find?_some hfind
    rfl

theorem Inv.budgetedJobs (h : Inv C name (probes.getD .zero)) (records : List R) (target : T)
    (now : Time) (refresh : Duration) :
    Inv C name (budgetedJobs C name probes records target now refresh).1 := by
  obtain ⟨hdemand, -, -, ⟨hcohort, hlosses⟩ | ⟨hcohort, hlosses⟩⟩ :=
    budgetedJobs_fst C name probes records target now refresh
  · exact h.congr hcohort hlosses hdemand
  · refine ⟨Bounded.budgetedJobs h.bounded, ?_, ?_⟩
    · rw [hdemand]
      exact h.not_pending
    · intro id hid
      have hold : Demanded (probes.getD .zero) id := by
        obtain ⟨gateway, demand, hlookup, hmem⟩ := hid
        rw [hdemand] at hlookup
        exact ⟨gateway, demand, hlookup, hmem⟩
      by_cases hmem : id ∈ (probes.getD .zero).cohort
      · cases hcompatible : compatibleRecord C records id with
        | some record =>
          refine .inl ?_
          rw [hcohort]
          exact List.mem_filter.mpr ⟨hmem, by simp [hcompatible]⟩
        | none => exact .inr (gone_of_vanished hlosses hmem hcompatible)
      · -- it had left before, and nothing it was in has left now
        refine .inr (((h.covered id hold).resolve_left hmem).append _ hlosses ?_)
        intro loss hloss hdeparted
        obtain ⟨other, rfl, hother, -⟩ := vanishedFrom_departed hloss
        obtain rfl := Option.some.inj hdeparted
        exact hmem hother

theorem lookup_admitID {capacity : Int} {selected : Bool}
    (h : (s.admitID id capacity selected).demand.lookup gateway = some demand') :
    ∃ demand, s.demand.lookup gateway = some demand ∧ demand'.pending = demand.pending := by
  rcases admit_cases s id capacity selected with
    ⟨heq, -⟩ | ⟨-, -, heq⟩ | ⟨evicted, -, -, -, heq⟩
  · rw [heq] at h
    exact ⟨demand', h, rfl⟩
  · rw [heq] at h
    exact ⟨demand', h, rfl⟩
  · rw [heq] at h
    dsimp only at h
    rw [evict_lookup] at h
    split_ifs at h
    · obtain ⟨demand, hdemand, rfl⟩ := Option.map_eq_some_iff.mp h
      exact ⟨demand, hdemand, rfl⟩
    · exact ⟨demand', h, rfl⟩

theorem Inv.admitID (h : Inv C name s) (id : Bytes) (selected : Bool) :
    Inv C name (s.admitID id (cohortCapacity name) selected) where
  bounded := h.bounded.admitID id selected
  not_pending := by
    intro gateway demand' hlookup
    obtain ⟨demand, hold, hpending⟩ := lookup_admitID hlookup
    rw [hpending]
    exact h.not_pending gateway demand hold
  covered := h.covered.admitID id _ selected

theorem Inv.abandonRound (h : Inv C name s) (round : Round R T) :
    Inv C name (abandonRound s round) := by
  unfold Scheduling.abandonRound
  split_ifs
  · exact h.congr rfl rfl rfl
  · exact h

theorem Inv.completeRound (h : Inv C name s) (round : Round R T) (overloaded : Bool) :
    Inv C name (completeRound s round overloaded) := by
  unfold Scheduling.completeRound
  split_ifs
  · exact h.congr rfl rfl rfl
  · exact h

theorem Inv.touchDemand (h : Inv C name s) (gateway : Bytes) (now : Time) :
    Inv C name (touchDemand s gateway now) := by
  refine h.shrink rfl _ rfl ?_ ?_
  · intro loss hloss
    obtain ⟨entry, -, rfl⟩ := List.mem_map.mp hloss
    rfl
  · intro other demand' hlookup
    have hlookup' := (Assoc.lookup_retain.mp hlookup).1
    cases hown : s.demand.lookup gateway with
    | none =>
      rw [hown] at hlookup'
      exact ⟨demand', hlookup', rfl, fun id hid => hid⟩
    | some own =>
      rw [hown] at hlookup'
      dsimp only at hlookup'
      split_ifs at hlookup'
      · exact ⟨demand', hlookup', rfl, fun id hid => hid⟩
      · by_cases heq : other = gateway
        · subst heq
          rw [AList.lookup_insert] at hlookup'
          obtain rfl := Option.some.inj hlookup'
          exact ⟨own, hown, rfl, fun id hid => hid⟩
        · rw [AList.lookup_insert_ne heq] at hlookup'
          exact ⟨demand', hlookup', rfl, fun id hid => hid⟩

theorem Inv.leaveDemand (h : Inv C name s) (gateway : Bytes) :
    Inv C name (leaveDemand s gateway) := by
  refine h.shrink rfl [] rfl (by simp) ?_
  intro other demand hlookup
  by_cases heq : other = gateway
  · subst heq
    rw [Scheduling.leaveDemand, AList.lookup_erase] at hlookup
    cases hlookup
  · rw [Scheduling.leaveDemand, AList.lookup_erase_ne heq] at hlookup
    exact ⟨demand, hlookup, rfl, fun id hid => hid⟩

/-! ## Reservations -/

/-- A refused reservation records the verdicts only. -/
theorem reserveSelection_error {decision : Decision R} {now : Time} {refusal : Refusal}
    (h : reserveSelection C name s gateway decision now = (s', .error refusal)) :
    s' = s.observeVerdicts decision := by
  unfold reserveSelection at h
  dsimp only at h
  split_ifs at h
  · exact (Prod.mk.inj h).1.symm
  · exact (Prod.mk.inj h).1.symm
  · cases (Prod.mk.inj h).2

/-- The state `s` holds the reservation of a selection by a Gateway, made in a state `v` with
enough room. -/
structure Reserved (name : Bytes) (v s : ProbeState R) (reservation : Reservation)
    (selected : List Bytes) : Prop where
  resolved : reservation.previous.uncertain = none
  fits : ((needed v reservation.gateway selected).length : Int) ≤ cohortCapacity name
  previous : reservation.previous = (v.demand.lookup reservation.gateway).getD .zero
  hadPrevious : reservation.hadPrevious = (v.demand.lookup reservation.gateway).isSome
  state : ∃ now, s = { v with
    demand := v.demand.insert reservation.gateway
      { reservation.previous with selected := selected, seen := now, pending := true } }

theorem reserveSelection_ok {decision : Decision R} {now : Time}
    (h : reserveSelection C name s gateway decision now = (s', .ok reservation)) :
    reservation.gateway = gateway ∧
      Reserved name (s.observeVerdicts decision) s' reservation (decision.selected.map C.id) := by
  unfold reserveSelection at h
  dsimp only at h
  split_ifs at h with huncertain hfits
  · cases (Prod.mk.inj h).2
  · cases (Prod.mk.inj h).2
  · obtain ⟨rfl, hreservation⟩ := Prod.mk.inj h
    obtain rfl := Except.ok.inj hreservation
    exact ⟨rfl, by simpa using huncertain, not_lt.mp hfits, rfl, rfl, now, rfl⟩

namespace Reserved

variable {C : Catalog R} {name : Bytes} {v s : ProbeState R} {reservation : Reservation}
  {selected : List Bytes}

theorem lookup (h : Reserved name v s reservation selected) :
    ∃ now, s.demand.lookup reservation.gateway =
      some { reservation.previous with selected := selected, seen := now, pending := true } := by
  obtain ⟨now, rfl⟩ := h.state
  exact ⟨now, AList.lookup_insert _⟩

/-- The previous demand of the Gateway, if it had one. -/
theorem lookup_previous (h : Reserved name v s reservation selected)
    (hid : id ∈ reservation.previous.ids) :
    v.demand.lookup reservation.gateway = some reservation.previous := by
  cases hlookup : v.demand.lookup reservation.gateway with
  | none =>
    rw [h.previous, hlookup] at hid
    exact absurd hid (by simp [Demand.ids, Demand.zero])
  | some demand => rw [h.previous, hlookup, Option.getD_some]

theorem selected_needed (hid : id ∈ selected) : id ∈ needed v reservation.gateway selected :=
  List.mem_dedup.mpr (List.mem_append_right _ hid)

/-- What was demanded when the reservation was made, and is maintained and not rejected, is
counted in. -/
theorem demanded_needed (hdemanded : Demanded v id) (hcohort : id ∈ v.cohort)
    (hrejected : id ∉ v.rejected) : id ∈ needed v reservation.gateway selected := by
  obtain ⟨gateway, demand, hlookup, hid⟩ := hdemanded
  refine List.mem_dedup.mpr (List.mem_append_left _ (List.mem_flatMap.mpr
    ⟨⟨gateway, demand⟩, AList.mem_lookup_iff.mp hlookup, ?_⟩))
  rcases List.mem_append.mp hid with hid | hid
  · exact List.mem_append_left _ (List.mem_filter.mpr ⟨hid, by simp [hcohort, hrejected]⟩)
  · exact List.mem_append_right _ (List.mem_filter.mpr ⟨hid, by simp [hcohort, hrejected]⟩)

/-- **A reserved selection can be admitted** once the Gateway's demand names nothing but the
selection and what it named before. -/
theorem admitting (h : Reserved name v s reservation selected) (hinv : Inv C name v)
    {demand : Demand} (hids : ∀ id ∈ demand.ids, id ∈ selected ∨ id ∈ reservation.previous.ids)
    {base : ProbeState R} (hcohort : base.cohort = v.cohort) (hlosses : base.losses = v.losses)
    (hrejected : base.rejected = v.rejected)
    (hdemand : ∀ gateway, base.demand.lookup gateway =
      if gateway = reservation.gateway then some demand else v.demand.lookup gateway) :
    Admitting C (cohortCapacity name) (needed v reservation.gateway selected) [] selected base := by
  have hold : ∀ id, Demanded base id → id ∈ selected ∨ Demanded v id := by
    rintro id ⟨gateway, d, hlookup, hid⟩
    rw [hdemand] at hlookup
    split_ifs at hlookup
    · obtain rfl := Option.some.inj hlookup
      rcases hids id hid with hid | hid
      · exact .inl hid
      · exact .inr ⟨_, _, h.lookup_previous hid, hid⟩
    · exact .inr ⟨gateway, d, hlookup, hid⟩
  refine ⟨hinv.bounded.of_cohort_eq hcohort, h.fits, fun id hid => selected_needed hid, ?_, ?_,
    by simp⟩
  · intro id hmem hprotected
    rw [isProtected_iff, hrejected] at hprotected
    rw [hcohort] at hmem
    rcases hold id hprotected.2 with hid | hdemanded
    · exact selected_needed hid
    · exact demanded_needed hdemanded hmem hprotected.1
  · intro id hdemanded
    rcases hold id hdemanded with hid | hdemanded
    · exact .inr (.inr hid)
    · rcases hinv.covered id hdemanded with hmem | hgone
      · rw [hcohort]
        exact .inl hmem
      · exact .inr (.inl (hgone.append [] (by simpa using hlosses) (by simp)))

end Reserved

theorem lookup_admitAll {capacity : Int} {ids : List Bytes}
    (h : (admitAll capacity s ids).demand.lookup gateway = some demand') :
    ∃ demand, s.demand.lookup gateway = some demand ∧ demand'.pending = demand.pending := by
  induction ids generalizing s with
  | nil => exact ⟨demand', h, rfl⟩
  | cons id ids ih =>
    obtain ⟨demand, hlookup, hpending⟩ := ih h
    obtain ⟨first, hfirst, hpending'⟩ := lookup_admitID hlookup
    exact ⟨first, hfirst, hpending.trans hpending'⟩

/-- Admitting a reserved selection re-establishes the invariant. -/
theorem Inv.of_admitting {needed : List Bytes} {base : ProbeState R}
    (h : Admitting C (cohortCapacity name) needed [] selected base)
    (hpending : ∀ gateway demand, base.demand.lookup gateway = some demand →
      demand.pending = false) :
    Inv C name (admitAll (cohortCapacity name) base selected) where
  bounded := h.run.bounded
  not_pending := by
    intro gateway demand' hlookup
    obtain ⟨demand, hold, heq⟩ := lookup_admitAll hlookup
    rw [heq]
    exact hpending gateway demand hold
  covered := by
    intro id hdemanded
    rcases h.run.covered id hdemanded with hmem | hgone | hrest
    · exact .inl hmem
    · exact .inr hgone
    · cases hrest

section

variable (h : Reserved name v s reservation selected)
include h

/-- A published reservation becomes the Gateway's demand, and its selection is admitted. -/
theorem Reserved.published_eq (now : Time) :
    ∃ seen, conclude name s reservation now .published = admitAll (cohortCapacity name)
      { s with demand := s.demand.insert reservation.gateway { reservation.previous with
        selected := selected, seen := seen, pending := false, uncertain := none,
        intended := none } } selected := by
  obtain ⟨seen, hlookup⟩ := h.lookup
  refine ⟨seen, ?_⟩
  rw [conclude, commitSelection, hlookup]
  rfl

/-- A reservation that may have been written is held next to the previous demand, and its
selection is admitted. -/
theorem Reserved.unconfirmed_eq (now : Time) (intended : Option Receipt) :
    conclude name s reservation now (.unconfirmed intended) = admitAll (cohortCapacity name)
      { s with
        attempts := (s.attempts + 1) % 2 ^ 64
        demand := s.demand.insert reservation.gateway { reservation.previous with
          uncertain := some selected, intended := intended, attempt := (s.attempts + 1) % 2 ^ 64,
          seen := now, pending := false } } selected := by
  obtain ⟨seen, hlookup⟩ := h.lookup
  rw [conclude, holdUncertain, hlookup]
  rfl

/-- A reservation does nothing to other demands. -/
theorem Reserved.lookup_other {gateway : Bytes} (hne : gateway ≠ reservation.gateway) :
    s.demand.lookup gateway = v.demand.lookup gateway := by
  obtain ⟨seen, hstate⟩ := h.state
  rw [hstate]
  exact AList.lookup_insert_ne hne

/-- **The conclusion of a reservation that may have been written** admits the selection, in a
state that counted it in. -/
theorem Reserved.conclude_eq (hinv : Inv C name v) {outcome : Outcome}
    (houtcome : outcome ≠ .failed) (now : Time) :
    ∃ base, conclude name s reservation now outcome = admitAll (cohortCapacity name) base selected ∧
      Admitting C (cohortCapacity name) (needed v reservation.gateway selected) [] selected base ∧
      base.rejected = s.rejected ∧ (∀ id ∈ selected, Demanded base id) ∧
      ∀ gateway demand, base.demand.lookup gateway = some demand → demand.pending = false := by
  obtain ⟨seen', hstate⟩ := h.state
  have hrejected : s.rejected = v.rejected := by rw [hstate]
  have hdemand : ∀ demand gateway, (s.demand.insert reservation.gateway demand).lookup gateway =
      if gateway = reservation.gateway then some demand else v.demand.lookup gateway := by
    intro demand gateway
    split_ifs with heq
    · subst heq
      exact AList.lookup_insert _
    · rw [AList.lookup_insert_ne heq]
      exact h.lookup_other heq
  have hpending : ∀ {demand : Demand}, demand.pending = false → ∀ gateway d,
      (s.demand.insert reservation.gateway demand).lookup gateway = some d → d.pending = false := by
    intro demand hnot gateway d hd
    rw [hdemand] at hd
    split_ifs at hd
    · obtain rfl := Option.some.inj hd
      exact hnot
    · exact hinv.not_pending gateway d hd
  cases outcome with
  | failed => exact absurd rfl houtcome
  | published =>
    obtain ⟨seen, heq⟩ := h.published_eq now
    refine ⟨_, heq, ?_, rfl, ?_, hpending rfl⟩
    · exact h.admitting hinv (fun id hid => .inl (by simpa [Demand.ids] using hid))
        (by rw [hstate]) (by rw [hstate]) hrejected (hdemand _)
    · exact fun id hid => ⟨_, _, AList.lookup_insert _, List.mem_append_left _ hid⟩
  | unconfirmed intended =>
    refine ⟨_, h.unconfirmed_eq now intended, ?_, rfl, ?_, hpending rfl⟩
    · refine h.admitting hinv (fun id hid => ?_) (by rw [hstate]) (by rw [hstate]) hrejected
        (hdemand _)
      rcases List.mem_append.mp hid with hid | hid
      · exact .inr (List.mem_append_left _ hid)
      · exact .inl hid
    · exact fun id hid => ⟨_, _, AList.lookup_insert _, List.mem_append_right _ hid⟩

/-- A released reservation leaves the demands as they were before it. -/
theorem Reserved.release_eq :
    ∃ demand : Assoc Bytes Demand, releaseSelection s reservation = { v with demand := demand } ∧
      ∀ gateway, demand.lookup gateway = v.demand.lookup gateway := by
  obtain ⟨seen, hlookup⟩ := h.lookup
  obtain ⟨seen', hstate⟩ := h.state
  have hhad := h.hadPrevious
  have hprevious := h.previous
  rw [releaseSelection, hlookup]
  cases hold : v.demand.lookup reservation.gateway with
  | none =>
    rw [hold] at hhad
    simp only [Bool.not_true, Bool.false_eq_true, if_false, hhad, Option.isSome_none]
    refine ⟨s.demand.erase reservation.gateway, by rw [hstate], fun gateway => ?_⟩
    by_cases heq : gateway = reservation.gateway
    · rw [heq, AList.lookup_erase, hold]
    · rw [AList.lookup_erase_ne heq, h.lookup_other heq]
  | some demand =>
    rw [hold] at hhad hprevious
    simp only [Bool.not_true, Bool.false_eq_true, if_false, hhad, Option.isSome_some, if_true]
    refine ⟨s.demand.insert reservation.gateway reservation.previous, by rw [hstate],
      fun gateway => ?_⟩
    by_cases heq : gateway = reservation.gateway
    · rw [heq, AList.lookup_insert, hold, hprevious, Option.getD_some]
    · rw [AList.lookup_insert_ne heq, h.lookup_other heq]

theorem Reserved.release_inv (hinv : Inv C name v) :
    Inv C name (releaseSelection s reservation) := by
  obtain ⟨demand, heq, hdemand⟩ := h.release_eq
  rw [heq]
  refine hinv.shrink rfl [] rfl (by simp) ?_
  intro gateway d hd
  rw [hdemand gateway] at hd
  exact ⟨d, hd, rfl, fun id hid => hid⟩

theorem Reserved.conclude_inv (hinv : Inv C name v) (outcome : Outcome) (now : Time) :
    Inv C name (conclude name s reservation now outcome) := by
  by_cases houtcome : outcome = .failed
  · subst houtcome
    exact h.release_inv hinv
  · obtain ⟨base, heq, hadmitting, -, -, hpending⟩ := h.conclude_eq hinv houtcome now
    rw [heq]
    exact .of_admitting hadmitting hpending

/-- The endpoints of a selection that is published or possibly written are maintained, unless
they were rejected when it was reserved and have been forgotten since. -/
theorem Reserved.conclude_admitted (hinv : Inv C name v) {outcome : Outcome}
    (houtcome : outcome ≠ .failed) (now : Time) (hid : id ∈ selected)
    (hkept : id ∉ s.rejected ∨ Demanded (conclude name s reservation now outcome) id) :
    id ∈ (conclude name s reservation now outcome).cohort := by
  obtain ⟨base, heq, hadmitting, hrejected, hdemanded, -⟩ := h.conclude_eq hinv houtcome now
  rw [heq] at hkept ⊢
  refine hadmitting.run.admitted id (by simpa using hid) ?_
  rcases hkept with hkept | hkept
  · exact demanded_admitAll (hdemanded id hid) (hrejected ▸ hkept)
  · exact hkept

end

/-! ## Whole reconciliations -/

/-- The two states agree on everything but the verdicts. -/
structure SameDemand (s s' : ProbeState R) : Prop where
  cohort : s'.cohort = s.cohort
  losses : s'.losses = s.losses
  demand : s'.demand = s.demand

theorem SameDemand.observeVerdicts (h : SameDemand s s') (decision : Decision R) :
    SameDemand s (s'.observeVerdicts decision) :=
  ⟨h.cohort, h.losses, h.demand⟩

theorem Inv.same (h : Inv C name s) (hsame : SameDemand s s') : Inv C name s' :=
  h.congr hsame.cohort hsame.losses hsame.demand

/-- **A plan ends without a reservation, or with one that fits.** -/
theorem reservePlan_cases (C : Catalog R) (name : Bytes) (s : ProbeState R) (gateway : Bytes)
    (now : Time) (plan : Plan R) :
    (∃ s', reservePlan C name s gateway now plan = (s', none) ∧ SameDemand s s') ∨
      ∃ s' reservation decision v,
        reservePlan C name s gateway now plan = (s', some (reservation, decision)) ∧
        reservation.gateway = gateway ∧ SameDemand s v ∧
        Reserved name v s' reservation (decision.selected.map C.id) := by
  have hsame : SameDemand s s := ⟨rfl, rfl, rfl⟩
  cases plan with
  | failed => exact .inl ⟨s, rfl, hsame⟩
  | empty decision => exact .inl ⟨_, rfl, hsame.observeVerdicts decision⟩
  | planned decision again =>
    unfold reservePlan
    dsimp only
    cases hfirst : reserveSelection C name s gateway decision now with
    | mk s₁ result =>
      cases result with
      | ok reservation =>
        obtain ⟨hgateway, hreserved⟩ := reserveSelection_ok hfirst
        exact .inr ⟨s₁, reservation, decision, _, rfl, hgateway,
          hsame.observeVerdicts decision, hreserved⟩
      | error refusal =>
        obtain rfl := reserveSelection_error hfirst
        have hsame₁ := hsame.observeVerdicts decision
        cases again with
        | failed => exact .inl ⟨_, rfl, hsame₁⟩
        | empty decision' => exact .inl ⟨_, rfl, hsame₁.observeVerdicts decision'⟩
        | planned decision' =>
          dsimp only
          cases hsecond : reserveSelection C name (s.observeVerdicts decision) gateway
              decision' now with
          | mk s₂ result =>
            cases result with
            | ok reservation =>
              obtain ⟨hgateway, hreserved⟩ := reserveSelection_ok hsecond
              exact .inr ⟨s₂, reservation, decision', _, rfl, hgateway,
                hsame₁.observeVerdicts decision', hreserved⟩
            | error refusal =>
              obtain rfl := reserveSelection_error hsecond
              exact .inl ⟨_, rfl, hsame₁.observeVerdicts decision'⟩

/-- What a probe round does: it is granted, its results are recorded, and it is settled. -/
theorem probeStep_induct {P : ProbeState R → Prop} (rec : Reconciliation R T)
    (hround : P (budgetedJobs C name probes rec.records rec.target rec.roundAt rec.refresh).1)
    (hrecord : ∀ s (jobs : List (Job R T)) results, P s →
      P (recordProbeResults C name s jobs results))
    (habandon : ∀ s (round : Round R T), P s → P (abandonRound s round))
    (hcomplete : ∀ s (round : Round R T) overloaded, P s → P (completeRound s round overloaded)) :
    P (probeStep C name probes rec).1 := by
  unfold probeStep
  cases hjobs : budgetedJobs C name probes rec.records rec.target rec.roundAt rec.refresh with
  | mk s granted =>
    rw [hjobs] at hround
    cases granted with
    | none => exact hround
    | some round =>
      dsimp only
      cases rec.round with
      | failed => exact habandon s round hround
      | executed results stored =>
        have hrecorded := hrecord s (round.explore ++ round.maintain) results hround
        cases stored with
        | none => exact habandon _ round hrecorded
        | some overloaded => exact hcomplete _ round overloaded hrecorded

theorem Inv.probeStep (h : Inv C name (probes.getD .zero)) (rec : Reconciliation R T) :
    Inv C name (probeStep C name probes rec).1 :=
  probeStep_induct rec (h.budgetedJobs rec.records rec.target rec.roundAt rec.refresh)
    (fun _ jobs results hs => recordProbeResults_induct (fun _ id ht => ht.admitID id false) hs jobs
      results) (fun _ round hs => hs.abandonRound round)
    fun _ round overloaded hs => hs.completeRound round overloaded

/-- **A reconciliation up to its conclusion** stops after the round, or goes on to a plan, which
ends without a reservation or with one that fits. -/
theorem beforeConclusion_cases (C : Catalog R) (name : Bytes) (probes : Option (ProbeState R))
    (rec : Reconciliation R T) {probed : ProbeState R}
    (hprobed : probed = (probeStep C name
      (probes.map fun s => resolveUncertain s rec.gateway rec.published) rec).1) :
    (beforeConclusion C name probes rec = (probed, none)) ∨
    (∃ s, beforeConclusion C name probes rec = (s, none) ∧
      SameDemand (touchDemand probed rec.gateway rec.touchedAt) s) ∨
    ∃ s reservation decision v,
      beforeConclusion C name probes rec = (s, some (reservation, decision)) ∧
      reservation.gateway = rec.gateway ∧
      SameDemand (touchDemand probed rec.gateway rec.touchedAt) v ∧
      Reserved name v s reservation (decision.selected.map C.id) := by
  subst hprobed
  unfold beforeConclusion
  dsimp only
  cases hstep : probeStep C name
      (probes.map fun s => resolveUncertain s rec.gateway rec.published) rec with
  | mk s continues =>
    cases continues with
    | false => exact .inl rfl
    | true => exact .inr (reservePlan_cases C name _ rec.gateway rec.decidedAt rec.plan)

theorem Inv.probed (h : Inv C name (probes.getD .zero)) (rec : Reconciliation R T) :
    Inv C name (Scheduling.probeStep C name
      (probes.map fun s => Scheduling.resolveUncertain s rec.gateway rec.published) rec).1 := by
  refine Inv.probeStep ?_ rec
  cases probes with
  | none => exact h
  | some s => exact h.settles (settles_resolveUncertain s rec.gateway rec.published)

theorem Inv.reconcile (h : Inv C name (probes.getD .zero)) (rec : Reconciliation R T) :
    Inv C name (reconcile C name probes rec) := by
  have hprobed := h.probed rec
  have htouched := hprobed.touchDemand rec.gateway rec.touchedAt
  unfold Scheduling.reconcile
  rcases beforeConclusion_cases C name probes rec rfl with
    heq | ⟨s, heq, hsame⟩ | ⟨s, reservation, decision, v, heq, -, hsame, hreserved⟩
  · rw [heq]
    exact hprobed
  · rw [heq]
    exact htouched.same hsame
  · rw [heq]
    exact hreserved.conclude_inv (htouched.same hsame) (rec.outcome decision) rec.decidedAt

theorem Inv.run (h : Inv C name (probes.getD .zero)) (step : Step R T) :
    Inv C name ((step.run C name probes).getD .zero) := by
  cases step with
  | reconcile rec => exact h.reconcile rec
  | leave gateway =>
    cases probes with
    | none => exact h
    | some s => exact h.leaveDemand gateway
  | expire => exact .zero C name

theorem inv_foldl (steps : List (Step R T)) (h : Inv C name (probes.getD .zero)) :
    Inv C name ((steps.foldl (Step.run C name) probes).getD .zero) := by
  induction steps generalizing probes with
  | nil => exact h
  | cons step steps ih => exact ih (h.run step)

/-- **Protected demand stays maintained.**  After any sequence of reconciliations no demand is
pending, and every endpoint that a demand names is rejected, or a member of the cohort, or
last left the cohort in a round whose records have no compatible one with its ID.  In a
further reconciliation, the endpoints of a reservation that is published or possibly written
are members afterwards, except those that were rejected when it was made and that no demand
names any more. -/
theorem demand_maintained (C : Catalog R) (name : Bytes) (steps : List (Step R T)) :
    let probes := steps.foldl (Step.run C name) none
    (∀ s, probes = some s → ∀ gateway demand, s.demand.lookup gateway = some demand →
      demand.pending = false ∧
        ∀ id ∈ demand.ids, id ∈ s.rejected ∨ id ∈ s.cohort ∨ Gone C s id) ∧
    ∀ (rec : Reconciliation R T) s reservation decision,
      beforeConclusion C name probes rec = (s, some (reservation, decision)) →
      rec.outcome decision ≠ .failed →
      ∀ record ∈ decision.selected,
        C.id record ∉ s.rejected ∨ Demanded (reconcile C name probes rec) (C.id record) →
          C.id record ∈ (reconcile C name probes rec).cohort := by
  intro probes
  have hinv : Inv C name (probes.getD .zero) := inv_foldl steps (.zero C name)
  refine ⟨?_, ?_⟩
  · intro s hs gateway demand hlookup
    rw [hs] at hinv
    refine ⟨hinv.not_pending gateway demand hlookup, fun id hid => .inr ?_⟩
    exact hinv.covered id ⟨gateway, demand, hlookup, hid⟩
  · intro rec s reservation decision heq houtcome record hrecord hkept
    have hconclude : reconcile C name probes rec =
        conclude name s reservation rec.decidedAt (rec.outcome decision) := by
      rw [reconcile, heq]
    have htouched := (hinv.probed rec).touchDemand rec.gateway rec.touchedAt
    rcases beforeConclusion_cases C name probes rec rfl with
      hnone | ⟨s', hnone, -⟩ | ⟨s', reservation', decision', v, hsome, -, hsame, hreserved⟩
    · rw [hnone] at heq
      cases (Prod.mk.inj heq).2
    · rw [hnone] at heq
      cases (Prod.mk.inj heq).2
    · rw [hsome] at heq
      obtain ⟨rfl, hreservation⟩ := Prod.mk.inj heq
      obtain ⟨rfl, rfl⟩ := Prod.mk.inj (Option.some.inj hreservation)
      rw [hconclude] at hkept ⊢
      exact hreserved.conclude_admitted (htouched.same hsame) houtcome rec.decidedAt
        (List.mem_map_of_mem hrecord) hkept

/-- **What is demanded is observed.**  After any sequence of reconciliations a granted round keeps
within its budget and has a job for every demanded endpoint with a compatible record, unless
it is gone. -/
theorem demanded_observed (C : Catalog R) (name : Bytes) (steps : List (Step R T)) :
    let probes := steps.foldl (Step.run C name) none
    ((probes.getD .zero).cohort.length : Int) ≤ cohortCapacity name ∧
    ∀ records (target : T) now refresh round,
      (budgetedJobs C name probes records target now refresh).2 = some round →
      (round.maintain.length + round.explore.length : Int) ≤ roundBudget name ∧
      ∀ record ∈ records, C.compatible record = true → Demanded (probes.getD .zero) (C.id record) →
        (∃ job ∈ round.maintain, C.id job.record = C.id record) ∨
          Gone C (probes.getD .zero) (C.id record) := by
  intro probes
  have hinv : Inv C name (probes.getD .zero) := inv_foldl steps (.zero C name)
  refine ⟨hinv.bounded.length_le, fun records target now refresh round h =>
    ⟨(roundSpec_of_granted hinv.bounded h).budget, ?_⟩⟩
  intro record hrecord hcompatible hdemanded
  refine (hinv.covered _ hdemanded).imp_left fun hcohort => ?_
  cases hmap : compatibleRecord C records (C.id record) with
  | none => exact absurd rfl (compatibleRecord_eq_none hmap hrecord hcompatible)
  | some other =>
    obtain ⟨-, -, hid⟩ := compatibleRecord_eq_some hmap
    refine ⟨⟨other, target⟩, ?_, hid⟩
    rw [(budgetedJobs_granted h).1.2.1]
    exact mem_maintainJobs.mpr ⟨rfl, hid ▸ hcohort, hid ▸ hmap⟩

end Egressfox.Scheduling
