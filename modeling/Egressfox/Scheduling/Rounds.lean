import Egressfox.Engine.Capability
import Egressfox.Scheduling.Admit

/-!
# Rounds and their budget

`nextProbeBatch` scans a window of the records, from the cursor on and around the end;
`budgetedJobs` grants a round.  `RoundSpec` says what is in a granted round, and
`probe_budget` that every round granted after any sequence of operations on the context
keeps within its budget.
-/

namespace Egressfox.Scheduling

open Lib Artifact Selection

variable {R T : Type}

/-! ## Exploration -/

/-- The scan takes a window of the records in rotated order, and of it what can be explored.
It ends at the end of the records or when the limit is reached. -/
theorem scanBatch_eq (C : Catalog R) (records : List R) (start : Nat) (limit : Int)
    (skip : List Bytes) (left scanned : Nat) (taken : List R)
    (hlength : left + scanned = records.length) (htaken : taken.length ≤ limit) :
    ∃ count, count ≤ left ∧
      scanBatch C records start limit skip left scanned taken =
        (taken ++ (((records.rotate start).drop scanned).take count).filter (explorable C skip),
          scanned + count) ∧
      ((scanBatch C records start limit skip left scanned taken).1.length : Int) ≤ limit ∧
      (count = left ∨
        limit ≤ (scanBatch C records start limit skip left scanned taken).1.length) := by
  induction left generalizing scanned taken with
  | zero => exact ⟨0, le_rfl, by simp [scanBatch], htaken, .inl rfl⟩
  | succ left ih =>
    by_cases hroom : taken.length < limit
    · have hlt : scanned < records.length := by omega
      have hrotate : scanned < (records.rotate start).length := by
        rwa [List.length_rotate]
      have hget : records[(start + scanned) % records.length]? =
          some ((records.rotate start)[scanned]) := by
        rw [← List.getElem?_eq_getElem hrotate, List.getElem?_rotate hlt, Nat.add_comm]
      rw [scanBatch, if_pos hroom, hget]
      dsimp only
      set record := (records.rotate start)[scanned] with hrecord
      have hroom' : ((if explorable C skip record then taken ++ [record] else taken).length : Int) ≤
          limit := by
        split_ifs
        · rw [List.length_append, List.length_singleton]
          omega
        · omega
      obtain ⟨count, hcount, heq, hle, hend⟩ := ih (scanned + 1) _ (by omega) hroom'
      refine ⟨count + 1, by omega, ?_, hle, hend.imp_left (congrArg (· + 1))⟩
      rw [heq, List.drop_eq_getElem_cons hrotate, List.take_succ_cons, ← hrecord]
      split_ifs with hexplorable
      · rw [List.filter_cons_of_pos hexplorable, List.append_assoc, List.singleton_append,
          Nat.add_assoc, Nat.add_comm 1]
      · rw [List.filter_cons_of_neg hexplorable, Nat.add_assoc, Nat.add_comm 1]
    · rw [scanBatch, if_neg hroom]
      exact ⟨0, Nat.zero_le _, by simp, htaken, .inr (not_lt.mp hroom)⟩

/-- Where a scan from a cursor begins. -/
def scanStart (records : List R) (cursor : Nat) : Nat :=
  if cursor ≥ records.length then 0 else cursor

/-- How many records the scan of `nextProbeBatch` visits. -/
def scanCount (C : Catalog R) (records : List R) (start : Nat) (limit : Int) (skip : List Bytes) :
    Nat :=
  (scanBatch C records (scanStart records start) limit skip records.length 0 []).2

/-- **What `nextProbeBatch` returns**: the records of a window that can be explored, at most
`limit` of them, and the position after the window.  The window is the whole list unless the
limit is reached. -/
theorem nextProbeBatch_eq (C : Catalog R) (records : List R) (start : Nat) {limit : Int}
    (skip : List Bytes) (hlimit : 0 ≤ limit) :
    let count := scanCount C records start limit skip
    count ≤ records.length ∧
      nextProbeBatch C records start limit skip =
        (((records.rotate (scanStart records start)).take count).filter (explorable C skip),
          (scanStart records start + count) % records.length) ∧
      ((nextProbeBatch C records start limit skip).1.length : Int) ≤ limit ∧
      (count = records.length ∨ limit ≤ (nextProbeBatch C records start limit skip).1.length) := by
  set first := scanStart records start with hfirst
  obtain ⟨count, hcount, heq, hle, hend⟩ := scanBatch_eq C records first limit skip
    records.length 0 [] rfl (by simpa using hlimit)
  rw [List.nil_append, List.drop_zero, Nat.zero_add] at heq
  rw [heq] at hle hend
  have hscanned : scanCount C records start limit skip = count := by
    rw [scanCount, ← hfirst, heq]
  have hbatch : nextProbeBatch C records start limit skip =
      (((records.rotate first).take count).filter (explorable C skip),
        (first + count) % records.length) := by
    unfold nextProbeBatch
    dsimp only
    rw [← scanStart, ← hfirst, heq]
    split_ifs with hrecords
    · rfl
    · have hnil : records.length = 0 := by omega
      have hzero : first = 0 := if_pos (by omega)
      rw [hzero, hnil, show count = 0 by omega]
  dsimp only
  rw [hbatch, hscanned]
  exact ⟨hcount, rfl, hle, hend⟩

/-! ## Granted rounds -/

variable {C : Catalog R} {records : List R} {target : T} {name : Bytes}
  {probes : Option (ProbeState R)} {now : Time} {refresh : Duration} {round : Round R T}
  {s : ProbeState R}

theorem compatibleRecord_eq_some {id : Bytes} {record : R}
    (h : compatibleRecord C records id = some record) :
    record ∈ records ∧ C.compatible record = true ∧ C.id record = id := by
  have hmem := List.mem_of_find?_eq_some h
  rw [List.mem_filter, List.mem_reverse] at hmem
  exact ⟨hmem.1, hmem.2, by simpa using List.find?_some h⟩

theorem compatibleRecord_eq_none {id : Bytes} (h : compatibleRecord C records id = none)
    {record : R} (hrecord : record ∈ records) (hcompatible : C.compatible record = true) :
    C.id record ≠ id := by
  have hmem : record ∈ records.reverse.filter C.compatible :=
    List.mem_filter.mpr ⟨List.mem_reverse.mpr hrecord, hcompatible⟩
  simpa using List.find?_eq_none.mp h record hmem

/-- There is a job for each member, with a compatible record of its ID. -/
theorem map_id_jobsFor {ids : List Bytes} (h : ∀ id ∈ ids, (compatibleRecord C records id).isSome) :
    (jobsFor C records target ids).map (fun job => C.id job.record) = ids := by
  induction ids with
  | nil => rfl
  | cons id ids ih =>
    obtain ⟨record, hrecord⟩ := Option.isSome_iff_exists.mp (h id (by simp))
    have htail := ih fun other hother => h other (by simp [hother])
    rw [jobsFor, List.filterMap_cons_some hrecord, List.map_cons, List.map_cons,
      (compatibleRecord_eq_some hrecord).2.2]
    exact congrArg (id :: ·) htail

/-- The state after a granted round, and the round. -/
structure RoundSpec (C : Catalog R) (name : Bytes) (before after : ProbeState R) (records : List R)
    (target : T) (round : Round R T) : Prop where
  /-- The round keeps within its budget. -/
  budget : (round.maintain.length + round.explore.length : Int) ≤ roundBudget name
  /-- The members that remain are those with a compatible record. -/
  cohort : after.cohort = keptCohort C records before.cohort
  /-- Each of them is maintained once, the protected ones last. -/
  maintain_ids : round.maintain.map (fun job => C.id job.record) =
    after.cohort.filter (fun id => !after.isProtected id) ++
      after.cohort.filter fun id => after.isProtected id
  maintain_nodup : (round.maintain.map fun job => C.id job.record).Nodup
  maintain_record : ∀ job ∈ round.maintain,
    job.record ∈ records ∧ C.compatible job.record = true ∧ job.target = target
  /-- Explored are the compatible records of a window that are not maintained, each as
  often as there have to be samples. -/
  explore : ∃ first count, count ≤ records.length ∧
    round.explore = (List.replicate evidencePolicy.minSamples.toNat
      ((((records.rotate first).take count).filter fun record =>
        C.compatible record && C.id record ∉ after.cohort).map
          fun record => ⟨record, target⟩)).flatten

/-- What `budgetedJobs` does to the state. -/
theorem budgetedJobs_fst (C : Catalog R) (name : Bytes) (probes : Option (ProbeState R))
    (records : List R) (target : T) (now : Time) (refresh : Duration) :
    let s := probes.getD .zero
    let after := (budgetedJobs C name probes records target now refresh).1
    after.demand = s.demand ∧ after.rejected = s.rejected ∧ after.attempts = s.attempts ∧
      (after.cohort = s.cohort ∧ after.losses = s.losses ∨
        after.cohort = keptCohort C records s.cohort ∧
          after.losses = vanishedFrom C records s.cohort ++ s.losses) := by
  dsimp only
  unfold budgetedJobs
  dsimp only
  by_cases hdue : now < (probes.getD .zero).untilAt
  · rw [if_pos hdue]
    exact ⟨rfl, rfl, rfl, .inl ⟨rfl, rfl⟩⟩
  · rw [if_neg hdue]
    exact ⟨rfl, rfl, rfl, .inr ⟨rfl, rfl⟩⟩

/-- The window of a round: the evidence cadence, or the shorter refresh interval. -/
def roundWindow (refresh : Duration) : Duration :=
  if refresh > 0 then min (probeCadence evidencePolicy) refresh else probeCadence evidencePolicy

/-- The round that `budgetedJobs` grants, and what it claims: its window, the next identifier and
the next cursor. -/
theorem budgetedJobs_granted
    (h : (budgetedJobs C name probes records target now refresh).2 = some round) :
    let s := probes.getD .zero
    let after := (budgetedJobs C name probes records target now refresh).1
    let batch := nextProbeBatch C records s.cursor (exploreLimit name round.maintain.length)
      (keptCohort C records s.cohort)
    (after.cohort = keptCohort C records s.cohort ∧
      round.maintain = maintainJobs C s records target ∧
      round.explore = (List.replicate evidencePolicy.minSamples.toNat
        (batch.1.map fun record => ⟨record, target⟩)).flatten) ∧
    after.untilAt = now + roundWindow refresh ∧ after.round = (s.round + 1) % 2 ^ 64 ∧
      round.id = after.round ∧ round.cursor = s.cursor ∧ after.cursor = batch.2 := by
  unfold budgetedJobs at h ⊢
  dsimp only at h ⊢
  by_cases hdue : now < (probes.getD .zero).untilAt
  · rw [if_pos hdue] at h
    cases h
  · rw [if_neg hdue] at h ⊢
    obtain rfl := Option.some.inj h
    exact ⟨⟨rfl, rfl, rfl⟩, rfl, rfl, rfl, rfl, rfl⟩

/-- A round is granted exactly outside the window of the last one. -/
theorem budgetedJobs_isSome (C : Catalog R) (name : Bytes) (probes : Option (ProbeState R))
    (records : List R) (target : T) (now : Time) (refresh : Duration) :
    (budgetedJobs C name probes records target now refresh).2.isSome =
      decide ((probes.getD .zero).untilAt ≤ now) := by
  unfold budgetedJobs
  dsimp only
  by_cases hdue : now < (probes.getD .zero).untilAt
  · rw [if_pos hdue, decide_eq_false (not_le.mpr hdue)]
    rfl
  · rw [if_neg hdue, decide_eq_true (not_lt.mp hdue)]
    rfl

theorem budgetedJobs_seen (C : Catalog R) (name : Bytes) (probes : Option (ProbeState R))
    (records : List R) (target : T) (now : Time) (refresh : Duration) :
    (budgetedJobs C name probes records target now refresh).1.seen = now := by
  unfold budgetedJobs
  dsimp only
  split_ifs <;> rfl

/-- Inside the window nothing but the time of the last visit changes. -/
theorem budgetedJobs_refused
    (h : (budgetedJobs C name probes records target now refresh).2 = none) :
    (budgetedJobs C name probes records target now refresh).1 =
      { probes.getD .zero with seen := now } := by
  unfold budgetedJobs at h ⊢
  dsimp only at h ⊢
  by_cases hdue : now < (probes.getD .zero).untilAt
  · rw [if_pos hdue]
  · rw [if_neg hdue] at h
    cases h

theorem roundBudget_eq (name : Bytes) : roundBudget name = cohortCapacity name + 6 := by
  have hminimum : exploreMin * evidencePolicy.minSamples = 6 := rfl
  rw [cohortCapacity, hminimum]
  omega

theorem cohortCapacity_pos (name : Bytes) : 0 < cohortCapacity name := by
  have hminimum : exploreMin * evidencePolicy.minSamples = 6 := rfl
  rw [cohortCapacity, hminimum, roundBudget]
  split_ifs <;> omega

/-- Maintenance lists every member that is kept. -/
theorem map_id_maintainJobs (C : Catalog R) (s : ProbeState R) (records : List R) (target : T) :
    (maintainJobs C s records target).map (fun job => C.id job.record) =
      (keptCohort C records s.cohort).filter (fun id => !s.isProtected id) ++
        (keptCohort C records s.cohort).filter fun id => s.isProtected id := by
  have hkept : ∀ id ∈ keptCohort C records s.cohort, (compatibleRecord C records id).isSome :=
    fun id hid => (List.mem_filter.mp hid).2
  rw [maintainJobs, List.map_append, map_id_jobsFor, map_id_jobsFor]
  · exact fun id hid => hkept id (List.mem_of_mem_filter hid)
  · exact fun id hid => hkept id (List.mem_of_mem_filter hid)

/-- The two parts of a list, swapped. -/
theorem filter_not_append_filter_perm (p : Bytes → Bool) (l : List Bytes) :
    (l.filter (fun a => !p a) ++ l.filter p).Perm l :=
  List.perm_append_comm.trans (List.filter_append_perm p l)

theorem length_maintainJobs (C : Catalog R) (s : ProbeState R) (records : List R) (target : T) :
    (maintainJobs C s records target).length = (keptCohort C records s.cohort).length := by
  have hlength := congrArg List.length (map_id_maintainJobs C s records target)
  rw [List.length_map] at hlength
  rw [hlength]
  exact (filter_not_append_filter_perm s.isProtected _).length_eq

/-- Every round may explore `exploreMin` records. -/
theorem exploreMin_le_exploreLimit (name : Bytes) (maintained : Nat) :
    exploreMin ≤ exploreLimit name maintained :=
  le_max_left _ _

/-- The exploration jobs that fit next to the maintenance of a bounded cohort. -/
theorem exploreLimit_spec {maintained : Nat} (h : (maintained : Int) ≤ cohortCapacity name) :
    0 ≤ exploreLimit name maintained ∧
      maintained + evidencePolicy.minSamples * exploreLimit name maintained ≤ roundBudget name := by
  have hbudget := roundBudget_eq name
  have hsamples : evidencePolicy.minSamples = 3 := rfl
  have hmin : exploreMin = 2 := rfl
  have hdiv := Int.tdiv_eq_ediv_of_nonneg (b := 3) (show 0 ≤ roundBudget name - maintained by omega)
  rw [exploreLimit, hsamples, hmin, hdiv]
  omega

/-- **What a granted round contains.** -/
theorem roundSpec_of_granted (hbounded : Bounded (cohortCapacity name) (probes.getD .zero))
    (h : (budgetedJobs C name probes records target now refresh).2 = some round) :
    RoundSpec C name (probes.getD .zero)
      (budgetedJobs C name probes records target now refresh).1 records target round := by
  obtain ⟨hcohort, hmaintain, hexplore⟩ := (budgetedJobs_granted h).1
  obtain ⟨hdemand, hrejected, -, -⟩ := budgetedJobs_fst C name probes records target now refresh
  set s := probes.getD .zero
  set after := (budgetedJobs C name probes records target now refresh).1
  have hprotected : after.isProtected = s.isProtected := by
    funext id
    rw [ProbeState.isProtected, ProbeState.isProtected, hdemand, hrejected]
  have hids := map_id_maintainJobs C s records target
  rw [← hmaintain, ← hcohort, ← hprotected] at hids
  have hlength : round.maintain.length ≤ s.cohort.length := by
    rw [hmaintain, length_maintainJobs]
    exact List.length_filter_le _ _
  have hcapacity : (round.maintain.length : Int) ≤ cohortCapacity name :=
    (Int.ofNat_le.mpr hlength).trans hbounded.length_le
  obtain ⟨hnonneg, hfits⟩ := exploreLimit_spec hcapacity
  obtain ⟨hcount, hbatch, hbatchLength, -⟩ := nextProbeBatch_eq C records s.cursor
    (keptCohort C records s.cohort) hnonneg
  refine ⟨?_, hcohort, hids, ?_, ?_, scanStart records s.cursor, _, hcount, ?_⟩
  · have hsamples : evidencePolicy.minSamples = 3 := rfl
    rw [hsamples] at hfits
    rw [hexplore, hsamples]
    simp only [List.length_flatten, List.map_replicate, List.length_map, List.sum_replicate,
      smul_eq_mul, Nat.cast_mul]
    norm_num
    omega
  · rw [hids]
    refine (filter_not_append_filter_perm after.isProtected after.cohort).nodup_iff.mpr ?_
    rw [hcohort]
    exact hbounded.nodup.filter _
  · intro job hjob
    rw [hmaintain] at hjob
    rcases List.mem_append.mp hjob with hjob | hjob
    all_goals
      obtain ⟨record, hrecord, rfl⟩ := List.mem_map.mp hjob
      obtain ⟨id, -, hid⟩ := List.mem_filterMap.mp hrecord
      obtain ⟨hmem, hcompatible, -⟩ := compatibleRecord_eq_some hid
      exact ⟨hmem, hcompatible, rfl⟩
  · rw [hexplore, hbatch, hcohort]
    dsimp only
    congr 4
    funext record
    rw [explorable, Bool.and_comm]

/-! ## Exact connections -/

/-- A maintenance job carries the record that the map of compatible records holds. -/
theorem mem_maintainJobs {job : Job R T} :
    job ∈ maintainJobs C s records target ↔
      job.target = target ∧ C.id job.record ∈ s.cohort ∧
        compatibleRecord C records (C.id job.record) = some job.record := by
  have hjobs : ∀ ids : List Bytes, job ∈ jobsFor C records target ids ↔
      job.target = target ∧ C.id job.record ∈ ids ∧
        compatibleRecord C records (C.id job.record) = some job.record := by
    intro ids
    rw [jobsFor, List.mem_map]
    constructor
    · rintro ⟨record, hrecord, rfl⟩
      obtain ⟨id, hid, hcompatible⟩ := List.mem_filterMap.mp hrecord
      obtain rfl := (compatibleRecord_eq_some hcompatible).2.2
      exact ⟨rfl, hid, hcompatible⟩
    · rintro ⟨htarget, hid, hcompatible⟩
      refine ⟨job.record, List.mem_filterMap.mpr ⟨_, hid, hcompatible⟩, ?_⟩
      rw [← htarget]
  rw [maintainJobs, List.mem_append, hjobs, hjobs]
  simp only [keptCohort, List.mem_filter, Bool.not_eq_true']
  constructor
  · rintro (⟨htarget, ⟨⟨hid, -⟩, -⟩, hcompatible⟩ | ⟨htarget, ⟨⟨hid, -⟩, -⟩, hcompatible⟩)
    · exact ⟨htarget, hid, hcompatible⟩
    · exact ⟨htarget, hid, hcompatible⟩
  · rintro ⟨htarget, hid, hcompatible⟩
    have hsome : (compatibleRecord C records (C.id job.record)).isSome := by
      rw [hcompatible]
      rfl
    cases hprotected : s.isProtected (C.id job.record) with
    | false => exact .inl ⟨htarget, ⟨⟨hid, hsome⟩, rfl⟩, hcompatible⟩
    | true => exact .inr ⟨htarget, ⟨⟨hid, hsome⟩, rfl⟩, hcompatible⟩

/-- Exploration leaves out every endpoint that is maintained. -/
theorem not_mem_cohort_of_explore
    (h : (budgetedJobs C name probes records target now refresh).2 = some round) {job : Job R T}
    (hjob : job ∈ round.explore) :
    C.id job.record ∉ keptCohort C records (probes.getD .zero).cohort := by
  obtain ⟨-, -, hexplore⟩ := (budgetedJobs_granted h).1
  have hlimit : 0 ≤ exploreLimit name round.maintain.length :=
    le_trans (by decide) (exploreMin_le_exploreLimit name _)
  obtain ⟨-, hbatch, -, -⟩ := nextProbeBatch_eq C records (probes.getD .zero).cursor
    (keptCohort C records (probes.getD .zero).cohort) hlimit
  rw [hexplore, hbatch, List.mem_flatten] at hjob
  obtain ⟨batch, hmem, hjob⟩ := hjob
  rw [List.eq_of_mem_replicate hmem] at hjob
  obtain ⟨record, hrecord, rfl⟩ := List.mem_map.mp hjob
  have hexplorable := (List.mem_filter.mp hrecord).2
  rw [explorable, Bool.and_eq_true] at hexplorable
  simpa using hexplorable.1

/-- **A round observes every maintained connection exactly if no maintained endpoint has two
compatible connections.**  The map of compatible records is keyed by the endpoint ID, and
exploration skips maintained IDs. -/
theorem observes_exact_iff {C : Catalog R} {name : Bytes} {probes : Option (ProbeState R)}
    {records : List R} {target : T} {now : Time} {refresh : Duration} {round : Round R T}
    (h : (budgetedJobs C name probes records target now refresh).2 = some round) :
    (∀ record ∈ records, C.compatible record = true →
      C.id record ∈ (probes.getD .zero).cohort →
        ∃ job ∈ round.explore ++ round.maintain, job.record = record) ↔
    ∀ record ∈ records, ∀ other ∈ records, C.compatible record = true →
      C.compatible other = true → C.id record ∈ (probes.getD .zero).cohort →
        C.id other = C.id record → other = record := by
  obtain ⟨-, hmaintain, -⟩ := (budgetedJobs_granted h).1
  constructor
  · intro hobserved record hrecord other hother hcompatible hcompatible' hcohort hid
    -- whatever job carries such a record, the record is the one in the map
    have hmap : ∀ r ∈ records, C.compatible r = true → C.id r = C.id record →
        compatibleRecord C records (C.id record) = some r := by
      intro r hr hc hidr
      have hin : C.id r ∈ (probes.getD .zero).cohort := by rwa [hidr]
      obtain ⟨job, hjob, rfl⟩ := hobserved r hr hc hin
      rcases List.mem_append.mp hjob with hjob | hjob
      · refine absurd (List.mem_filter.mpr ⟨hin, ?_⟩) (not_mem_cohort_of_explore h hjob)
        cases hnone : compatibleRecord C records (C.id job.record) with
        | none => exact absurd rfl (compatibleRecord_eq_none hnone hr hc)
        | some _ => rfl
      · rw [hmaintain] at hjob
        rw [← hidr]
        exact (mem_maintainJobs.mp hjob).2.2
    have hfirst := hmap record hrecord hcompatible rfl
    rw [hmap other hother hcompatible' hid] at hfirst
    exact Option.some.inj hfirst
  · intro hunique record hrecord hcompatible hcohort
    cases hmap : compatibleRecord C records (C.id record) with
    | none => exact absurd rfl (compatibleRecord_eq_none hmap hrecord hcompatible)
    | some other =>
      obtain ⟨hother, hcompatible', hid⟩ := compatibleRecord_eq_some hmap
      obtain rfl := hunique record hrecord other hother hcompatible hcompatible' hcohort hid
      refine ⟨⟨other, target⟩, List.mem_append_right _ ?_, rfl⟩
      rw [hmaintain]
      exact mem_maintainJobs.mpr ⟨rfl, hcohort, hmap⟩

end Egressfox.Scheduling

namespace Egressfox.Scheduling.Sample

open Lib Endpoint Endpoint.Sample Engine
open Artifact (singBox1141)

/-- What the scheduler reads of a record. -/
def recordCatalog : Catalog Record where
  id r := (r.identity sum256).id.string
  compatible r := decide (checkEndpoint singBox1141 r.configuration = .ok ())

/-- The inventory of the sample endpoint with its two revisions. -/
def inventory : List Record := [record (ascii "old"), record (ascii "new")]

/-- The first round explores both revisions, and the probe of one of them succeeds. -/
def probes : Option (ProbeState Record) :=
  some (recordProbeResults recordCatalog (ascii "default")
    (budgetedJobs recordCatalog (ascii "default") none inventory () 0 0).1
    [(⟨record (ascii "old"), ()⟩ : Job Record Unit)] [⟨true, true⟩])

/-- Both revisions of the endpoint are compatible and the endpoint is maintained; the next round
has a job for the later revision only. -/
theorem unobserved_revision :
    deduplicate unicode sum256 [record (ascii "new"), record (ascii "old")] = .ok inventory ∧
    record (ascii "old") ∈ inventory ∧ recordCatalog.compatible (record (ascii "old")) = true ∧
    recordCatalog.id (record (ascii "old")) ∈ (probes.getD .zero).cohort ∧
    ∃ round : Round Record Unit,
      (budgetedJobs recordCatalog (ascii "default") probes inventory () Duration.hour 0).2 =
        some round ∧
      ∀ job ∈ round.explore ++ round.maintain, job.record ≠ record (ascii "old") := by
  have hjobs : ((budgetedJobs recordCatalog (ascii "default") probes inventory ()
      Duration.hour 0).2.map fun round => round.explore ++ round.maintain) =
        some [⟨record (ascii "new"), ()⟩] := by
    decide +kernel
  have hother : record (ascii "new") ≠ record (ascii "old") := by decide +kernel
  refine ⟨by decide +kernel, by simp [inventory], by decide +kernel, by decide +kernel, ?_⟩
  obtain ⟨round, hround, hall⟩ := Option.map_eq_some_iff.mp hjobs
  refine ⟨round, hround, fun job hjob => ?_⟩
  rw [hall, List.mem_singleton] at hjob
  rw [hjob]
  exact hother

/-- With one revision in the inventory the round observes it. -/
theorem observes_exact_iff_single :
    ∃ round : Round Record Unit,
      (budgetedJobs recordCatalog (ascii "default") probes [record (ascii "old")] ()
        Duration.hour 0).2 = some round ∧
      ∃ job ∈ round.explore ++ round.maintain, job.record = record (ascii "old") := by
  have hgranted : (budgetedJobs recordCatalog (ascii "default") probes [record (ascii "old")] ()
      Duration.hour 0).2.isSome := by decide +kernel
  obtain ⟨round, hround⟩ := Option.isSome_iff_exists.mp hgranted
  refine ⟨round, hround, (observes_exact_iff hround).mpr ?_ (record (ascii "old")) (by simp)
    (by decide +kernel) (by decide +kernel)⟩
  intro r hr other hother _ _ _ _
  rw [List.mem_singleton.mp hr, List.mem_singleton.mp hother]

end Egressfox.Scheduling.Sample

namespace Egressfox.Scheduling

open Lib Artifact Selection

variable {R T : Type}

/-! ## Any interleaving -/

/-- One atomic operation on the context, with arbitrary arguments. -/
inductive Op (R T : Type) where
  | budgetedJobs (records : List R) (target : T) (now : Time) (refresh : Duration)
  | abandonRound (round : Round R T)
  | completeRound (round : Round R T) (overloaded : Bool)
  | recordProbeResults (jobs : List (Job R T)) (results : List ProbeResult)
  | touchDemand (gateway : Bytes) (now : Time)
  /-- `touchDemand` of a Gateway in another context. -/
  | leaveDemand (gateway : Bytes)
  | observeVerdicts (decision : Decision R)
  | reserveSelection (gateway : Bytes) (decision : Decision R) (now : Time)
  | commitSelection (reservation : Reservation)
  | holdUncertain (reservation : Reservation) (intended : Option Receipt) (now : Time)
  | resolveUncertain (gateway : Bytes) (published : Option Receipt → Option Bool)
  /-- The second half of `resolveUncertain`, after other operations. -/
  | settleUncertain (gateway : Bytes) (attempt : Nat) (written : Bool)
  | releaseSelection (reservation : Reservation)
  /-- The context expires in a round of another one. -/
  | expire

/-- An operation on a context that exists. -/
def Op.onState (C : Catalog R) (name : Bytes) (s : ProbeState R) : Op R T → ProbeState R
  | .budgetedJobs records target now refresh =>
    (Scheduling.budgetedJobs C name (some s) records target now refresh).1
  | .abandonRound round => Scheduling.abandonRound s round
  | .completeRound round overloaded => Scheduling.completeRound s round overloaded
  | .recordProbeResults jobs results => Scheduling.recordProbeResults C name s jobs results
  | .touchDemand gateway now => Scheduling.touchDemand s gateway now
  | .leaveDemand gateway => Scheduling.leaveDemand s gateway
  | .observeVerdicts decision => s.observeVerdicts decision
  | .reserveSelection gateway decision now =>
    (Scheduling.reserveSelection C name s gateway decision now).1
  | .commitSelection reservation => Scheduling.commitSelection name s reservation
  | .holdUncertain reservation intended now =>
    Scheduling.holdUncertain name s reservation intended now
  | .resolveUncertain gateway published => Scheduling.resolveUncertain s gateway published
  | .settleUncertain gateway attempt written =>
    Scheduling.settleUncertain s gateway attempt written
  | .releaseSelection reservation => Scheduling.releaseSelection s reservation
  | .expire => s

/-- An operation on the map entry of the context.  Only a round creates the entry. -/
def Op.run (C : Catalog R) (name : Bytes) (probes : Option (ProbeState R)) (op : Op R T) :
    Option (ProbeState R) :=
  match op with
  | .expire => none
  | .budgetedJobs records target now refresh =>
    some (Scheduling.budgetedJobs C name probes records target now refresh).1
  | op => probes.map fun s => op.onState C name s

theorem Bounded.zero (name : Bytes) : Bounded (cohortCapacity name) (.zero : ProbeState R) :=
  ⟨List.nodup_nil, (cohortCapacity_pos name).le⟩

/-- The bound depends on the cohort alone. -/
theorem Bounded.of_cohort_eq {capacity : Int} {s' : ProbeState R} (h : Bounded capacity s)
    (heq : s'.cohort = s.cohort) : Bounded capacity s' :=
  ⟨heq ▸ h.nodup, heq ▸ h.length_le⟩

theorem Bounded.budgetedJobs (h : Bounded (cohortCapacity name) (probes.getD .zero)) :
    Bounded (cohortCapacity name) (budgetedJobs C name probes records target now refresh).1 := by
  obtain ⟨-, -, -, ⟨hcohort, -⟩ | ⟨hcohort, -⟩⟩ :=
    budgetedJobs_fst C name probes records target now refresh
  · exact h.of_cohort_eq hcohort
  · refine ⟨?_, ?_⟩
    · rw [hcohort]
      exact h.nodup.filter _
    · rw [hcohort]
      exact (Int.ofNat_le.mpr (List.length_filter_le _ _)).trans h.length_le

/-- The operation neither grants nor settles a round, and the context goes on. -/
def Op.quiet : Op R T → Bool
  | .budgetedJobs _ _ _ _ => false
  | .abandonRound _ => false
  | .completeRound _ _ => false
  | .expire => false
  | _ => true

/-- What such operations do: they admit endpoints, and change verdicts, demands and history. -/
inductive Quiet (name : Bytes) (s : ProbeState R) : ProbeState R → Prop where
  | refl : Quiet name s s
  | set {t : ProbeState R} (h : Quiet name s t) (rejected : List Bytes)
      (demand : Assoc Bytes Demand) (attempts : Nat) (losses : List (Loss R)) :
      Quiet name s { t with rejected, demand, attempts, losses }
  | enter {t : ProbeState R} (h : Quiet name s t) (id : Bytes) (selected : Bool) :
      Quiet name s (t.admitID id (cohortCapacity name) selected)

theorem Quiet.admitAll {t : ProbeState R} (h : Quiet name s t) (ids : List Bytes) :
    Quiet name s (admitAll (cohortCapacity name) t ids) := by
  induction ids generalizing t with
  | nil => exact h
  | cons id ids ih => exact ih (h.enter id true)

/-- The results of a round are admissions. -/
theorem recordProbeResults_induct {P : ProbeState R → Prop}
    (henters : ∀ s id, P s → P (s.admitID id (cohortCapacity name) false)) (h : P s)
    (jobs : List (Job R T)) (results : List ProbeResult) :
    P (recordProbeResults C name s jobs results) := by
  unfold recordProbeResults
  induction jobs.zip results generalizing s with
  | nil => exact h
  | cons pair rest ih =>
    rw [List.foldl_cons]
    apply ih
    dsimp only
    split_ifs
    · exact henters s _ h
    · exact h

/-- Nothing has happened, or the uncertain attempt of a Gateway has been settled. -/
def Settles (gateway : Bytes) (s s' : ProbeState R) : Prop :=
  s' = s ∨ ∃ demand ids, s.demand.lookup gateway = some demand ∧ demand.uncertain = some ids ∧
    ∃ written : Bool, s' = { s with demand := s.demand.insert gateway { demand with
      selected := if written then ids else demand.selected, uncertain := none, intended := none } }

theorem settles_settleUncertain (s : ProbeState R) (gateway : Bytes) (attempt : Nat)
    (written : Bool) : Settles gateway s (settleUncertain s gateway attempt written) := by
  unfold settleUncertain
  split
  · exact .inl rfl
  · next demand hlookup =>
    split
    · exact .inl rfl
    · next ids huncertain =>
      split
      · exact .inl rfl
      · exact .inr ⟨demand, ids, hlookup, huncertain, written, rfl⟩

theorem settles_resolveUncertain (s : ProbeState R) (gateway : Bytes)
    (published : Option Receipt → Option Bool) :
    Settles gateway s (resolveUncertain s gateway published) := by
  unfold resolveUncertain
  split
  · exact .inl rfl
  · split_ifs
    · exact .inl rfl
    · split
      · exact .inl rfl
      · exact settles_settleUncertain _ _ _ _

theorem Settles.quiet {gateway : Bytes} {s' : ProbeState R} (h : Settles gateway s s') :
    Quiet name s s' := by
  rcases h with rfl | ⟨demand, ids, -, -, written, rfl⟩
  · exact .refl
  · exact .set .refl _ _ _ _

theorem Op.onState_quiet (C : Catalog R) (name : Bytes) (s : ProbeState R) {op : Op R T}
    (h : op.quiet = true) : Quiet name s (op.onState C name s) := by
  cases op with
  | budgetedJobs _ _ _ _ | abandonRound _ | completeRound _ _ | expire => cases h
  | recordProbeResults jobs results =>
    exact recordProbeResults_induct (fun t id ht => ht.enter id false) .refl jobs results
  | touchDemand gateway now | leaveDemand gateway | observeVerdicts decision =>
    exact .set .refl _ _ _ _
  | reserveSelection gateway decision now =>
    simp only [Op.onState, Scheduling.reserveSelection]
    split_ifs <;> exact .set .refl _ _ _ _
  | commitSelection reservation =>
    simp only [Op.onState, Scheduling.commitSelection]
    split
    · exact .refl
    · split_ifs
      · exact .refl
      · exact .admitAll (.set .refl _ _ _ _) _
  | holdUncertain reservation intended now =>
    simp only [Op.onState, Scheduling.holdUncertain]
    split
    · exact .refl
    · split_ifs
      · exact .refl
      · exact .admitAll (.set .refl _ _ _ _) _
  | resolveUncertain gateway published => exact (settles_resolveUncertain s gateway published).quiet
  | settleUncertain gateway attempt written =>
    exact (settles_settleUncertain s gateway attempt written).quiet
  | releaseSelection reservation =>
    simp only [Op.onState, Scheduling.releaseSelection]
    split
    · exact .refl
    · split_ifs
      · exact .refl
      · exact .set .refl _ _ _ _
      · exact .set .refl _ _ _ _

theorem Quiet.bounded {s' : ProbeState R} (h : Quiet name s s')
    (hs : Bounded (cohortCapacity name) s) : Bounded (cohortCapacity name) s' := by
  induction h with
  | refl => exact hs
  | set _ _ _ _ _ ih => exact ih.of_cohort_eq rfl
  | enter _ id selected ih => exact ih.admitID id selected

/-- Every operation keeps the cohort bounded. -/
theorem Bounded.onState (h : Bounded (cohortCapacity name) s) (op : Op R T) :
    Bounded (cohortCapacity name) (op.onState C name s) := by
  cases op with
  | budgetedJobs records target now refresh => exact Bounded.budgetedJobs h
  | abandonRound round =>
    apply h.of_cohort_eq
    simp only [Op.onState, abandonRound]
    split_ifs <;> rfl
  | completeRound round overloaded =>
    apply h.of_cohort_eq
    simp only [Op.onState, completeRound]
    split_ifs <;> rfl
  | expire => exact h
  | _ => exact (Op.onState_quiet C name s rfl).bounded h

theorem Bounded.run (h : Bounded (cohortCapacity name) (probes.getD .zero)) (op : Op R T) :
    Bounded (cohortCapacity name) ((op.run C name probes).getD .zero) := by
  unfold Op.run
  split
  · exact .zero name
  · exact Bounded.budgetedJobs h
  · cases probes with
    | none => exact .zero name
    | some s => exact h.onState _

/-- The cohort stays bounded under any sequence of operations. -/
theorem bounded_foldl (ops : List (Op R T))
    (h : Bounded (cohortCapacity name) (probes.getD .zero)) :
    Bounded (cohortCapacity name) ((ops.foldl (Op.run C name) probes).getD .zero) := by
  induction ops generalizing probes with
  | nil => exact h
  | cons op ops ih => exact ih (h.run op)

/-- **The probe budget holds under any interleaving.**  After any sequence of operations the
cohort has no duplicates and fits, and a round granted then is as `RoundSpec` says. -/
theorem probe_budget (C : Catalog R) (name : Bytes) (ops : List (Op R T)) :
    let probes := ops.foldl (Op.run C name) none
    (∀ s, probes = some s → s.cohort.Nodup ∧ (s.cohort.length : Int) ≤ cohortCapacity name) ∧
      ∀ (records : List R) (target : T) (now : Time) (refresh : Duration) (round : Round R T),
        (budgetedJobs C name probes records target now refresh).2 = some round →
        RoundSpec C name (probes.getD .zero)
          (budgetedJobs C name probes records target now refresh).1 records target round := by
  intro probes
  have hbounded : Bounded (cohortCapacity name) (probes.getD .zero) :=
    bounded_foldl ops (.zero name)
  refine ⟨?_, fun records target now refresh round h => roundSpec_of_granted hbounded h⟩
  intro s hs
  rw [hs] at hbounded
  exact ⟨hbounded.nodup, hbounded.length_le⟩

end Egressfox.Scheduling
