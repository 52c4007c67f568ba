import Egressfox.Scheduling.Reconcile

/-!
# The constrained plan fits

When the preferred decision of M5 is refused, the reconciler plans again among the maintained
endpoints.  Such a decision asks for nothing that is not in the cohort already: what it needs is a
part of the cohort, which fits, and committing it evicts no member.

This holds in every state that operations on the context can lead to.  A reconciliation is a
sequence of such operations (`Reaches.reconcile`), so the states between and within serial
reconciliations are among them.
-/

namespace Egressfox.Scheduling

open Lib Artifact Selection

variable {R T : Type}

/-! ## Reconciliations are sequences of operations -/

/-- Operations on the context lead from one map entry to the other. -/
def Reaches (C : Catalog R) (name : Bytes) (T : Type) (probes probes' : Option (ProbeState R)) :
    Prop :=
  ∃ ops : List (Op R T), ops.foldl (Op.run C name) probes = probes'

namespace Reaches

variable {C : Catalog R} {name : Bytes} {probes probes' probes'' : Option (ProbeState R)}

theorem refl (probes : Option (ProbeState R)) : Reaches C name T probes probes := ⟨[], rfl⟩

theorem trans (h : Reaches C name T probes probes') (h' : Reaches C name T probes' probes'') :
    Reaches C name T probes probes'' := by
  obtain ⟨ops, rfl⟩ := h
  obtain ⟨ops', rfl⟩ := h'
  exact ⟨ops ++ ops', List.foldl_append⟩

theorem op (probes : Option (ProbeState R)) (op : Op R T) :
    Reaches C name T probes (op.run C name probes) :=
  ⟨[op], rfl⟩

theorem probeStep (probes : Option (ProbeState R)) (rec : Reconciliation R T) :
    Reaches C name T probes (some (probeStep C name probes rec).1) :=
  probeStep_induct (P := fun s => Reaches C name T probes (some s)) rec
    (op probes (.budgetedJobs rec.records rec.target rec.roundAt rec.refresh))
    (fun _ jobs results hs => hs.trans (op _ (.recordProbeResults jobs results)))
    (fun _ round hs => hs.trans (op _ (.abandonRound round)))
    fun _ round overloaded hs => hs.trans (op _ (.completeRound round overloaded))

theorem reserve {s s' : ProbeState R} {gateway : Bytes} {decision : Decision R} {now : Time}
    {answer : Except Refusal Reservation}
    (h : reserveSelection C name s gateway decision now = (s', answer)) :
    Reaches C name T (some s) (some s') := by
  have hop : Reaches C name T (some s) (some (reserveSelection C name s gateway decision now).1) :=
    op (some s) (.reserveSelection gateway decision now)
  rwa [h] at hop

theorem reservePlan (s : ProbeState R) (gateway : Bytes) (now : Time) (plan : Plan R) :
    Reaches C name T (some s) (some (reservePlan C name s gateway now plan).1) := by
  cases plan with
  | failed => exact refl _
  | empty decision => exact op (some s) (.observeVerdicts decision)
  | planned decision again =>
    unfold Scheduling.reservePlan
    dsimp only
    split
    · next hfirst => exact reserve hfirst
    · next s' refusal hfirst =>
        refine (reserve hfirst).trans ?_
        cases again with
        | failed => exact refl _
        | empty decision => exact op (some s') (.observeVerdicts decision)
        | planned decision =>
          dsimp only
          split
          · next hagain => exact reserve hagain
          · next hagain => exact reserve hagain

theorem beforeConclusion (probes : Option (ProbeState R)) (rec : Reconciliation R T) :
    Reaches C name T probes (some (beforeConclusion C name probes rec).1) := by
  have hresolve : Reaches C name T probes _ :=
    op probes (.resolveUncertain rec.gateway rec.published)
  have hprobe := hresolve.trans (probeStep _ rec)
  unfold Scheduling.beforeConclusion
  dsimp only
  change Reaches C name T probes (some (Scheduling.probeStep C name
    (probes.map fun s => resolveUncertain s rec.gateway rec.published) rec).1) at hprobe
  split
  · next s heq =>
      rw [heq] at hprobe
      exact hprobe
  · next s heq =>
      rw [heq] at hprobe
      exact (hprobe.trans (op _ (.touchDemand rec.gateway rec.touchedAt))).trans
        (reservePlan _ rec.gateway rec.decidedAt rec.plan)

/-- **A reconciliation is a sequence of operations.** -/
theorem reconcile (probes : Option (ProbeState R)) (rec : Reconciliation R T) :
    Reaches C name T probes (some (reconcile C name probes rec)) := by
  have hbefore : Reaches C name T probes _ := beforeConclusion (C := C) probes rec
  unfold Scheduling.reconcile
  split
  · next s heq =>
      rw [heq] at hbefore
      exact hbefore
  · next s reservation decision heq =>
      rw [heq] at hbefore
      refine hbefore.trans ?_
      cases rec.outcome decision with
      | published => exact op (some s) (.commitSelection reservation)
      | unconfirmed intended =>
        exact op (some s) (.holdUncertain reservation intended rec.decidedAt)
      | failed => exact op (some s) (.releaseSelection reservation)

/-- Serial reconciliations are sequences of operations. -/
theorem steps (probes : Option (ProbeState R)) (steps : List (Step R T)) :
    Reaches C name T probes (steps.foldl (Step.run C name) probes) := by
  induction steps generalizing probes with
  | nil => exact refl _
  | cons step steps ih =>
    refine trans ?_ (ih _)
    cases step with
    | reconcile rec => exact reconcile probes rec
    | leave gateway => exact op probes (.leaveDemand gateway)
    | expire => exact op probes .expire

end Reaches

/-! ## Decisions among maintained endpoints -/

/-- `Pipeline.maintained`. -/
def maintained (C : Catalog R) (probes : Option (ProbeState R)) (record : R) : Bool :=
  decide (C.id record ∈ (probes.getD .zero).cohort)

/-- What a maintained selection needs is maintained, unless another Gateway's demand is pending. -/
theorem needed_subset {s : ProbeState R} {gateway : Bytes} {selected : List Bytes}
    (hothers : ∀ other demand, s.demand.lookup other = some demand → other ≠ gateway →
      demand.pending = false)
    (hselected : ∀ id ∈ selected, id ∈ s.cohort) : needed s gateway selected ⊆ s.cohort := by
  intro id hid
  rcases List.mem_append.mp (List.mem_dedup.mp hid) with hid | hid
  · obtain ⟨⟨other, demand⟩, hentry, hid⟩ := List.mem_flatMap.mp hid
    have hlookup : s.demand.lookup other = some demand := AList.mem_lookup_iff.mpr hentry
    rcases List.mem_append.mp hid with hid | hid
    · have hfilter := (List.mem_filter.mp hid).2
      rw [Bool.or_eq_true, Bool.and_eq_true, Bool.and_eq_true] at hfilter
      rcases hfilter with ⟨hne, hpending⟩ | ⟨hcohort, -⟩
      · rw [hothers other demand hlookup (of_decide_eq_true hne)] at hpending
        cases hpending
      · exact of_decide_eq_true hcohort
    · have hfilter := (List.mem_filter.mp hid).2
      rw [Bool.and_eq_true] at hfilter
      exact of_decide_eq_true hfilter.1
  · exact hselected id hid

/-- Admitting members changes nothing. -/
theorem admitAll_of_subset {capacity : Int} {s : ProbeState R} {ids : List Bytes}
    (h : ∀ id ∈ ids, id ∈ s.cohort) : admitAll capacity s ids = s := by
  induction ids with
  | nil => rfl
  | cons id ids ih =>
    have hadmitted : s.admitID id capacity true = s := if_pos (h id (List.mem_cons_self ..))
    rw [admitAll, List.foldl_cons, hadmitted]
    exact ih fun other hother => h other (List.mem_cons_of_mem _ hother)

/-- **The constrained plan always fits.**  After any operations on the context, a decision among
maintained endpoints is reserved, and committing it keeps the cohort as it is: no member, protected
or not, yields its slot. -/
theorem constrained_plan_fits (C : Catalog R) (name : Bytes) (ops : List (Op R T))
    (s : ProbeState R) (hs : ops.foldl (Op.run C name) none = some s) (gateway : Bytes)
    (hown : ∀ demand, s.demand.lookup gateway = some demand → demand.uncertain = none)
    (hothers : ∀ other demand, s.demand.lookup other = some demand → other ≠ gateway →
      demand.pending = false)
    (decision : Decision R)
    (hmaintained : ∀ record ∈ decision.selected, maintained C (some s) record)
    (now : Time) :
    ∃ s' reservation, reserveSelection C name s gateway decision now = (s', .ok reservation) ∧
      (commitSelection name s' reservation).cohort = s.cohort := by
  have hbounded : Bounded (cohortCapacity name) s := by
    have hrun : Bounded (cohortCapacity name) ((ops.foldl (Op.run C name) none).getD .zero) :=
      bounded_foldl ops (.zero name)
    rwa [hs] at hrun
  set v := s.observeVerdicts decision with hv
  have hselected : ∀ id ∈ decision.selected.map C.id, id ∈ v.cohort := by
    intro id hid
    obtain ⟨record, hrecord, rfl⟩ := List.mem_map.mp hid
    exact of_decide_eq_true (hmaintained record hrecord)
  -- the verdicts leave cohort and demand alone, so what is needed is a part of the cohort
  have hfits : ((needed v gateway (decision.selected.map C.id)).length : Int) ≤
      cohortCapacity name := by
    have hsubset : needed v gateway (decision.selected.map C.id) ⊆ v.cohort :=
      needed_subset hothers hselected
    have hlength := (List.subperm_of_subset (List.nodup_dedup _) hsubset).length_le
    exact (Int.ofNat_le.mpr hlength).trans hbounded.length_le
  have huncertain : ((v.demand.lookup gateway).getD .zero).uncertain = none := by
    cases hlookup : v.demand.lookup gateway with
    | none => rfl
    | some demand => exact hown demand hlookup
  have hreserve : ∃ s' reservation,
      reserveSelection C name s gateway decision now = (s', .ok reservation) := by
    unfold reserveSelection
    dsimp only
    rw [← hv, if_neg (by rw [huncertain]; exact Bool.false_ne_true), if_neg (not_lt.mpr hfits)]
    exact ⟨_, _, rfl⟩
  obtain ⟨s', reservation, hreserve⟩ := hreserve
  refine ⟨s', reservation, hreserve, ?_⟩
  obtain ⟨-, hreserved⟩ := reserveSelection_ok hreserve
  obtain ⟨seen, hcommit⟩ := hreserved.published_eq now
  obtain ⟨seen', hstate⟩ := hreserved.state
  change (conclude name s' reservation now .published).cohort = s.cohort
  have hcohort : s'.cohort = s.cohort := by rw [hstate, ← hv]; rfl
  rw [hcommit, admitAll_of_subset]
  · exact hcohort
  · intro id hid
    rw [hcohort]
    exact hselected id hid

namespace Sample

/-- A decision for one record. -/
def single (record : Nat) : Decision Nat :=
  { selected := [record], explanations := []
    next := ⟨[], ⟨⟨[], none⟩, [], .httpGet, mihomo11931⟩, .zero, 0, [], []⟩
    changed := true, degraded := false, transition := .initial, eligible := 1, requested := 1 }

/-- A context that maintains two endpoints, one of them published by another Gateway. -/
def shared : List (Op Nat Unit) :=
  [.budgetedJobs [1, 2] () 0 0, .recordProbeResults [⟨1, ()⟩, ⟨2, ()⟩] [⟨true, true⟩, ⟨true, true⟩],
    .reserveSelection (ascii "other") (single 1) 0,
    .commitSelection ⟨ascii "other", .zero, false⟩]

/-- The Gateway's decision for the second endpoint is reserved next to the first. -/
theorem constrained_plan_fits_shared :
    ∃ s s' reservation, shared.foldl (Op.run named []) none = some s ∧
      reserveSelection named [] s (ascii "gateway") (single 2) 0 = (s', .ok reservation) ∧
      (commitSelection [] s' reservation).cohort = s.cohort := by
  have hsome : (shared.foldl (Op.run named []) none).isSome := by decide +kernel
  obtain ⟨s, hs⟩ := Option.isSome_iff_exists.mp hsome
  have hstate : s = (shared.foldl (Op.run named []) none).getD .zero := by rw [hs, Option.getD_some]
  have hentries : ∀ entry ∈ s.demand.entries,
      entry.2.pending = false ∧ entry.2.uncertain = none := by
    rw [hstate]
    decide +kernel
  have hmember : named.id 2 ∈ s.cohort := by
    rw [hstate]
    decide +kernel
  obtain ⟨s', reservation, h⟩ := constrained_plan_fits named [] shared s hs (ascii "gateway")
    (fun demand hlookup => (hentries _ (AList.mem_lookup_iff.mp hlookup)).2)
    (fun other demand hlookup _ => (hentries _ (AList.mem_lookup_iff.mp hlookup)).1) (single 2)
    (fun record hrecord => by
      rw [List.mem_singleton.mp hrecord]
      exact decide_eq_true hmember) 0
  exact ⟨s, s', reservation, hs, h⟩

end Sample

end Egressfox.Scheduling
