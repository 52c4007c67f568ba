import Egressfox.Lib.Cyclic
import Egressfox.Scheduling.Window

/-!
# Exploration covers the inventory

The cursor of a context threads the scans of its rounds together: over one list of records, the
rounds that are not abandoned visit the positions of one long turn around the list.  A round
visits at least `exploreMin` positions, so `⌈n / exploreMin⌉` rounds visit all `n`; and of the
positions it visits, a round explores those whose record is compatible and not maintained.

Records are told apart by their position in the list.
-/

namespace Egressfox.Scheduling

open Lib

variable {R T : Type}

/-! ## Sequences of rounds -/

/-- A granted round: the state and the arguments of `budgetedJobs`, and the round. -/
structure Grant (R T : Type) where
  before : ProbeState R
  target : T
  now : Time
  refresh : Duration
  round : Round R T

namespace Grant

variable (C : Catalog R) (name : Bytes) (records : List R) (g : Grant R T)

/-- What `budgetedJobs` returned. -/
def outcome : ProbeState R × Option (Round R T) :=
  budgetedJobs C name (some g.before) records g.target g.now g.refresh

/-- The endpoints that exploration leaves out. -/
def skip : List Bytes := keptCohort C records g.before.cohort

/-- How many positions the round visits. -/
def scanned : Nat :=
  scanCount C records g.before.cursor (exploreLimit name g.round.maintain.length) (g.skip C records)

/-- The positions the round visits. -/
def visits : List Nat :=
  turn records.length (scanStart records g.before.cursor) (g.scanned C name records)

/-- The positions the round explores, in this order. -/
def positions : List Nat :=
  (g.visits C name records).filter fun p => records[p]?.any (explorable C (g.skip C records))

end Grant

/-- The rounds were granted one after the other over one list of records, the first one at this
cursor, and each starts where the one before it ended: none was abandoned.  Whatever else is in
the state, the cohort included, may change in between. -/
def Follow (C : Catalog R) (name : Bytes) (records : List R) : Nat → List (Grant R T) → Prop
  | _, [] => True
  | cursor, g :: rest =>
    g.before.cursor = cursor ∧ (g.outcome C name records).2 = some g.round ∧
      Follow C name records (g.outcome C name records).1.cursor rest

/-- The record at this position is compatible with the engine, and its endpoint is in the cohort
in none of the rounds. -/
def Open (C : Catalog R) (records : List R) (grants : List (Grant R T)) (p : Nat) : Prop :=
  ∃ record, records[p]? = some record ∧ C.compatible record = true ∧
    ∀ g ∈ grants, C.id record ∉ g.before.cohort

/-! ## One round -/

/-- What is visited of a list is a part of its rotation. -/
theorem filterMap_turn (records : List R) (start : Nat) {count : Nat}
    (hcount : count ≤ records.length) :
    (turn records.length start count).filterMap (fun p => records[p]?) =
      (records.rotate start).take count := by
  induction count with
  | zero => rfl
  | succ count ih =>
    have hlt : count < records.length := hcount
    have hget : records[(start + count) % records.length]? = (records.rotate start)[count]? := by
      rw [List.getElem?_rotate hlt, Nat.add_comm]
    have hrotate : count < (records.rotate start).length := by rwa [List.length_rotate]
    rw [turn_add, List.filterMap_append, ih hlt.le, List.take_succ_eq_append_getElem hrotate]
    congr 1
    show [(start + count + 0) % records.length].filterMap _ = _
    rw [Nat.add_zero, List.filterMap_cons_some (hget.trans (List.getElem?_eq_getElem hrotate)),
      List.filterMap_nil]

/-- Filtering the elements that are found is filtering where they are found. -/
theorem filter_filterMap_eq {α β : Type} (f : α → Option β) (e : β → Bool) (l : List α) :
    (l.filterMap f).filter e = (l.filter fun a => (f a).any e).filterMap f := by
  induction l with
  | nil => rfl
  | cons a l ih =>
    cases hf : f a with
    | none => rw [List.filterMap_cons_none hf, List.filter_cons_of_neg (by simp [hf]), ih]
    | some b =>
      rw [List.filterMap_cons_some hf]
      cases he : e b with
      | true =>
        rw [List.filter_cons_of_pos he, List.filter_cons_of_pos (by simp [hf, he]),
          List.filterMap_cons_some hf, ih]
      | false =>
        rw [List.filter_cons_of_neg (by simp [he]), List.filter_cons_of_neg (by simp [hf, he]), ih]

section Round

variable {C : Catalog R} {name : Bytes} {records : List R} {g : Grant R T}

/-- What a round explores, and how far it moves the cursor. -/
structure Grant.Spec (C : Catalog R) (name : Bytes) (records : List R) (g : Grant R T) : Prop where
  nodup : (g.positions C name records).Nodup
  explore : g.round.explore = (List.replicate evidencePolicy.minSamples.toNat
    (((g.positions C name records).filterMap fun p => records[p]?).map
      fun record => ⟨record, g.target⟩)).flatten
  cursor : (g.outcome C name records).1.cursor =
    (scanStart records g.before.cursor + g.scanned C name records) % records.length
  scanned : g.scanned C name records = records.length ∨
    exploreMin ≤ (g.scanned C name records : Int)
  scanned_le : g.scanned C name records ≤ records.length

theorem Grant.spec (h : (g.outcome C name records).2 = some g.round) : g.Spec C name records := by
  obtain ⟨⟨-, -, hexplore⟩, -, -, -, -, hcursor⟩ := budgetedJobs_granted h
  have hmin := exploreMin_le_exploreLimit name g.round.maintain.length
  obtain ⟨hcount, hbatch, -, hend⟩ := nextProbeBatch_eq C records g.before.cursor
    (g.skip C records) (le_trans (by decide) hmin)
  change g.scanned C name records ≤ records.length at hcount
  have hpositions : ((g.positions C name records).filterMap fun p => records[p]?) =
      ((records.rotate (scanStart records g.before.cursor)).take (g.scanned C name records)).filter
        (explorable C (g.skip C records)) := by
    rw [← filterMap_turn records _ hcount, filter_filterMap_eq]
    rfl
  refine ⟨(nodup_turn _ hcount).filter _, ?_, ?_, hend.imp_right fun hlimit => ?_, hcount⟩
  · rw [hpositions]
    refine hexplore.trans ?_
    change (List.replicate _ ((nextProbeBatch C records g.before.cursor _
      (g.skip C records)).1.map _)).flatten = _
    rw [hbatch]
    rfl
  · refine hcursor.trans ?_
    change (nextProbeBatch C records g.before.cursor _ (g.skip C records)).2 = _
    rw [hbatch]
    rfl
  · refine hmin.trans (hlimit.trans ?_)
    rw [hbatch]
    exact_mod_cast (List.length_filter_le _ _).trans (List.length_take_le _ _)

/-- A round explores every open position it visits. -/
theorem Open.filter_positions {grants : List (Grant R T)} {keep : Nat → Bool} (hg : g ∈ grants)
    (hkeep : ∀ p, keep p = true → Open C records grants p) :
    (g.positions C name records).filter keep = (g.visits C name records).filter keep := by
  rw [Grant.positions, List.filter_filter]
  congr 1
  funext p
  cases hp : keep p with
  | false => rfl
  | true =>
    obtain ⟨record, hrecord, hcompatible, hcohort⟩ := hkeep p hp
    have hskip : C.id record ∉ g.skip C records := fun hid =>
      hcohort g hg (List.mem_of_mem_filter hid)
    rw [hrecord, Option.any_some, explorable, hcompatible, Bool.and_true, Bool.true_and]
    exact decide_eq_true hskip

end Round

/-! ## Any sequence of rounds -/

section Follow

variable {C : Catalog R} {name : Bytes} {records : List R} {cursor : Nat}
variable {grants earlier later : List (Grant R T)}

theorem Follow.left (h : Follow C name records cursor (earlier ++ later)) :
    Follow C name records cursor earlier := by
  induction earlier generalizing cursor with
  | nil => trivial
  | cons g earlier ih => exact ⟨h.1, h.2.1, ih h.2.2⟩

theorem Follow.right (h : Follow C name records cursor (earlier ++ later)) :
    ∃ cursor', Follow C name records cursor' later := by
  induction earlier generalizing cursor with
  | nil => exact ⟨cursor, h⟩
  | cons g earlier ih => exact ih h.2.2

theorem Follow.granted (h : Follow C name records cursor grants) {g : Grant R T} (hg : g ∈ grants) :
    (g.outcome C name records).2 = some g.round := by
  induction grants generalizing cursor with
  | nil => cases hg
  | cons g' grants ih =>
    rcases List.mem_cons.mp hg with rfl | hg
    · exact h.2.1
    · exact ih h.2.2 hg

/-- A scan goes on where the one before it ended. -/
theorem turn_scanStart (records : List R) {first count : Nat} (total : Nat)
    (hfirst : records.length = 0 → first = 0) (hcount : count ≤ records.length) :
    turn records.length (scanStart records ((first + count) % records.length)) total =
      turn records.length (first + count) total := by
  rcases Nat.eq_zero_or_pos records.length with hzero | hpos
  · have hsum : first + count = 0 := by
      rw [hfirst hzero]
      omega
    rw [hsum, hzero, scanStart, hzero]
    rfl
  · rw [scanStart, if_neg (not_le.mpr (Nat.mod_lt _ hpos)), turn_mod]

/-- **The rounds visit one turn around the list**, and it is a full one if there are enough
of them. -/
theorem Follow.visits (h : Follow C name records cursor grants) :
    ∃ total, grants.flatMap (fun g => g.visits C name records) =
        turn records.length (scanStart records cursor) total ∧
      (records.length ≤ total ∨ exploreMin * grants.length ≤ total) := by
  induction grants generalizing cursor with
  | nil => exact ⟨0, rfl, .inr le_rfl⟩
  | cons g grants ih =>
    obtain ⟨rfl, hgranted, hrest⟩ := h
    obtain ⟨-, -, hcursor, hscanned, hle⟩ := Grant.spec hgranted
    obtain ⟨total, hvisits, htotal⟩ := ih hrest
    have hfirst : records.length = 0 → scanStart records g.before.cursor = 0 := fun hzero =>
      if_pos (by omega)
    refine ⟨g.scanned C name records + total, ?_, ?_⟩
    · rw [List.flatMap_cons, hvisits, hcursor, turn_scanStart records total hfirst hle, turn_add]
      rfl
    · rw [List.length_cons, Nat.cast_add, Nat.cast_add, mul_add]
      rcases hscanned with hall | hmin
      · exact .inl (by omega)
      · rcases htotal with hall | htotal
        · exact .inl (by omega)
        · refine .inr ?_
          rw [Nat.cast_one, mul_one]
          omega

/-- What the rounds explore and what they visit is the same as far as open positions go. -/
theorem Open.filter_flatMap {keep : Nat → Bool}
    (hkeep : ∀ p, keep p = true → Open C records grants p) :
    (grants.flatMap fun g => g.positions C name records).filter keep =
      (grants.flatMap fun g => g.visits C name records).filter keep := by
  rw [List.filter_flatMap, List.filter_flatMap]
  exact List.flatMap_congr fun g hg => Open.filter_positions hg hkeep

theorem Open.lt {p : Nat} (h : Open C records grants p) : p < records.length := by
  obtain ⟨record, hrecord, -⟩ := h
  exact (List.getElem?_eq_some_iff.mp hrecord).1

/-- Enough rounds explore every open position. -/
theorem Follow.explores (h : Follow C name records cursor grants)
    (henough : records.length ⌈/⌉ exploreMin.toNat ≤ grants.length) {p : Nat}
    (hp : Open C records grants p) : p ∈ grants.flatMap fun g => g.positions C name records := by
  obtain ⟨total, hvisits, htotal⟩ := h.visits
  have hfull : records.length ≤ total := by
    have hmul : records.length ≤ exploreMin.toNat * grants.length :=
      (ceilDiv_le_iff_le_mul (by decide)).mp henough
    have hmin : exploreMin = 2 := rfl
    rw [hmin] at hmul htotal
    rcases htotal with htotal | htotal
    · exact htotal
    · change records.length ≤ 2 * grants.length at hmul
      omega
  have hfilter : (grants.flatMap fun g => g.positions C name records).filter (fun q => q = p) =
      (grants.flatMap fun g => g.visits C name records).filter fun q => q = p :=
    Open.filter_flatMap fun q hq => by rwa [of_decide_eq_true hq]
  have hmem : p ∈ (grants.flatMap fun g => g.visits C name records).filter fun q => q = p := by
    rw [hvisits]
    exact List.mem_filter.mpr ⟨mem_turn _ hfull hp.lt, decide_eq_true rfl⟩
  rw [← hfilter] at hmem
  exact List.mem_of_mem_filter hmem

/-- Between two explorations of an open position every other one is explored. -/
theorem Follow.separates (h : Follow C name records cursor grants) {p q : Nat}
    (hp : Open C records grants p) (hq : Open C records grants q) (hne : q ≠ p) :
    Separates p q (grants.flatMap fun g => g.positions C name records) := by
  obtain ⟨total, hvisits, -⟩ := h.visits
  have hfilter : (grants.flatMap fun g => g.positions C name records).filter
        (fun r => r = p ∨ r = q) =
      (grants.flatMap fun g => g.visits C name records).filter fun r => r = p ∨ r = q := by
    refine Open.filter_flatMap fun r hr => ?_
    rcases of_decide_eq_true hr with rfl | rfl
    · exact hp
    · exact hq
  rw [hvisits] at hfilter
  exact (separates_turn _ total hq.lt hne).of_filter_eq hfilter (by simp) (by simp)

end Follow

/-- **Exploration covers the inventory.**  A round explores the records at `positions`, none of
them twice.  Any `⌈n / exploreMin⌉` consecutive rounds explore every open position, and in any
consecutive rounds no open position is explored again before every other one has been. -/
theorem exploration_covers (C : Catalog R) (name : Bytes) (records : List R) (cursor : Nat)
    (grants : List (Grant R T)) (h : Follow C name records cursor grants) :
    (∀ g ∈ grants, (g.positions C name records).Nodup ∧
      g.round.explore = (List.replicate evidencePolicy.minSamples.toNat
        (((g.positions C name records).filterMap fun p => records[p]?).map
          fun record => ⟨record, g.target⟩)).flatten) ∧
    ∀ earlier rounds later, grants = earlier ++ rounds ++ later →
      (records.length ⌈/⌉ exploreMin.toNat ≤ rounds.length → ∀ p, Open C records rounds p →
        ∃ g ∈ rounds, p ∈ g.positions C name records) ∧
      ∀ p q, Open C records rounds p → Open C records rounds q → q ≠ p →
        Separates p q (rounds.flatMap fun g => g.positions C name records) := by
  refine ⟨fun g hg => ?_, ?_⟩
  · have hspec := Grant.spec (h.granted hg)
    exact ⟨hspec.nodup, hspec.explore⟩
  · rintro earlier rounds later rfl
    obtain ⟨cursor', hrounds⟩ := h.left.right
    refine ⟨fun henough p hp => ?_, fun p q hp hq hne => hrounds.separates hp hq hne⟩
    exact List.mem_flatMap.mp (hrounds.explores henough hp)

/-! ## Runs of a context -/

/-- The round an operation is granted, if any. -/
def Op.grant (C : Catalog R) (name : Bytes) (probes : Option (ProbeState R)) :
    Op R T → List (Grant R T)
  | .budgetedJobs records target now refresh =>
    ((Scheduling.budgetedJobs C name probes records target now refresh).2.map
      (Grant.mk (probes.getD .zero) target now refresh)).toList
  | _ => []

/-- The rounds granted in a run of the context. -/
def grantsOf (C : Catalog R) (name : Bytes) :
    Option (ProbeState R) → List (Op R T) → List (Grant R T)
  | _, [] => []
  | probes, op :: ops => op.grant C name probes ++ grantsOf C name (op.run C name probes) ops

/-- A round over these records, or any operation that neither abandons a round nor ends the
context. -/
def Op.Explores (records : List R) : Op R T → Prop
  | .budgetedJobs records' _ _ _ => records' = records
  | .completeRound _ _ => True
  | op => op.quiet = true

/-- The rounds of any such run follow one another. -/
theorem follow_grantsOf (C : Catalog R) (name : Bytes) (records : List R)
    (probes : Option (ProbeState R)) (ops : List (Op R T))
    (h : ∀ op ∈ ops, op.Explores records) :
    Follow C name records (probes.getD .zero).cursor (grantsOf C name probes ops) := by
  induction ops generalizing probes with
  | nil => trivial
  | cons op ops ih =>
    have hop := h op (List.mem_cons_self ..)
    have hrest := ih (op.run C name probes) fun op' hop' => h op' (List.mem_cons_of_mem _ hop')
    -- an operation that grants no round leaves the cursor alone
    have hidle : op.grant C name probes = [] →
        ((op.run C name probes).getD .zero).cursor = (probes.getD .zero).cursor →
        Follow C name records (probes.getD .zero).cursor (grantsOf C name probes (op :: ops)) := by
      intro hnone hcursor
      rw [grantsOf, hnone, List.nil_append, ← hcursor]
      exact hrest
    have hquiet : op.quiet = true →
        ((op.run C name probes).getD .zero).cursor = (probes.getD .zero).cursor := by
      intro hquiet
      rw [Op.run_of_quiet C name probes hquiet]
      cases probes with
      | none => rfl
      | some s => exact congrArg (·.1.2.2) (Op.onState_quiet C name s hquiet).marks_eq
    cases op with
    | budgetedJobs records' target now refresh =>
      obtain rfl : records' = records := hop
      cases hround : (budgetedJobs C name probes records' target now refresh).2 with
      | none =>
        refine hidle ?_ (congrArg (·.cursor) (budgetedJobs_refused hround))
        rw [Op.grant, hround]
        rfl
      | some round =>
        rw [grantsOf, Op.grant, hround]
        exact ⟨rfl, hround, hrest⟩
    | completeRound round overloaded =>
      refine hidle rfl ?_
      cases probes with
      | none => rfl
      | some s => exact congrArg (·.1.2.2) (Ledger.completeRound_marks s round overloaded)
    | abandonRound _ | expire => cases hop
    | _ => exact hidle rfl (hquiet rfl)

namespace Sample

/-- Two rounds over three records; the first one admits the record `0`. -/
def explorations : List (Op Nat Unit) :=
  [.budgetedJobs [0, 1, 2] () 0 0, .recordProbeResults [⟨0, ()⟩] [⟨true, true⟩],
    .budgetedJobs [0, 1, 2] () Duration.hour 0]

/-- The record `2` is explored. -/
theorem exploration_covers_two :
    ∃ g ∈ grantsOf named (ascii "default") none explorations,
      2 ∈ g.positions named (ascii "default") [0, 1, 2] :=
  ((exploration_covers named (ascii "default") [0, 1, 2] _ _
    (follow_grantsOf named (ascii "default") [0, 1, 2] none explorations
      (by simp [explorations, Op.Explores, Op.quiet]))).2 [] _ [] (by simp)).1 (by decide +kernel) 2
    ⟨2, rfl, rfl, by decide +kernel⟩

end Sample

end Egressfox.Scheduling
