import Egressfox.Scheduling.Rounds

/-!
# One effective round per window

A granted round claims the window, the number and the cursor of its context; until it is settled
it is in the hands of the reconciliation that got it, which may abandon or complete it long after
other rounds were granted.  `abandonRound` and `completeRound` compare the number of the round
with that of the latest one.

A `Ledger` is the context with the rounds it has granted, and an `Event` is one call, by any
Gateway, at any time.  The number of a round has 64 bits, so a round can be told from the latest
one as long as fewer than `2 ^ 64` rounds were granted after it.  And the numbers start again when
a context that was not visited for a day has been deleted, so the round must be one of the context
that lives: the ledger keeps the number of those granted before.
-/

namespace Egressfox.Scheduling

open Lib Artifact Selection

variable {R T : Type}

/-! ## The claim of a round -/

/-- What a round claims: the window, the number and the cursor. -/
def ProbeState.claim (s : ProbeState R) : Time × Nat × Nat := (s.untilAt, s.round, s.cursor)

/-- The claim, and the time of the last visit. -/
def ProbeState.marks (s : ProbeState R) : (Time × Nat × Nat) × Time := (s.claim, s.seen)

theorem admit_marks (s : ProbeState R) (id : Bytes) (capacity : Int) (selected : Bool) :
    (s.admitID id capacity selected).marks = s.marks := by
  rcases admit_cases s id capacity selected with
    ⟨heq, -⟩ | ⟨-, -, heq⟩ | ⟨evicted, -, -, -, heq⟩
  · rw [heq]
  · rw [heq]
    rfl
  · rw [heq]
    unfold ProbeState.evict
    split_ifs <;> rfl

theorem Quiet.marks_eq {name : Bytes} {s s' : ProbeState R} (h : Quiet name s s') :
    s'.marks = s.marks := by
  induction h with
  | refl => rfl
  | set _ _ _ _ _ ih => exact ih
  | enter _ id selected ih => exact (admit_marks _ id _ selected).trans ih

theorem Op.run_of_quiet (C : Catalog R) (name : Bytes) (probes : Option (ProbeState R))
    {op : Op R T} (h : op.quiet = true) :
    op.run C name probes = probes.map fun s => op.onState C name s := by
  cases op with
  | budgetedJobs _ _ _ _ | expire => cases h
  | _ => rfl

/-! ## The ledger -/

/-- A context and the rounds it has granted, the first one first, with the number of rounds from
before the context was deleted last. -/
structure Ledger (R T : Type) where
  probes : Option (ProbeState R)
  rounds : List (Round R T)
  born : Nat

/-- One call by any Gateway. -/
inductive Event (R T : Type) where
  /-- `budgetedJobs`. -/
  | request (records : List R) (now : Time) (refresh : Duration)
  /-- `abandonRound` of a round that was granted. -/
  | abandon (i : Nat)
  /-- `completeRound` of a round that was granted. -/
  | complete (i : Nat) (overloaded : Bool)
  /-- `budgetedJobs` in another context, which deletes this one if it was not visited for long. -/
  | expire (now : Time)
  /-- Any other operation on the context. -/
  | other (op : { op : Op R T // op.quiet = true })

/-- The time of a `budgetedJobs`. -/
def Event.time : Event R T → Option Time
  | .request _ now _ => some now
  | .expire now => some now
  | _ => none

/-- The round an event settles. -/
def Event.settles : Event R T → Option Nat
  | .abandon i => some i
  | .complete i _ => some i
  | _ => none

namespace Ledger

/-- Settle a round that was granted. -/
def settle (L : Ledger R T) (i : Nat) (f : ProbeState R → Round R T → ProbeState R) : Ledger R T :=
  match L.rounds[i]? with
  | none => L
  | some round => { L with probes := L.probes.map fun s => f s round }

/-- What an event does to the context, whose target is fixed. -/
def step (C : Catalog R) (name : Bytes) (target : T) (L : Ledger R T) : Event R T → Ledger R T
  | .request records now refresh =>
    let outcome := budgetedJobs C name L.probes records target now refresh
    { L with probes := some outcome.1, rounds := L.rounds ++ outcome.2.toList }
  | .abandon i => L.settle i abandonRound
  | .complete i overloaded => L.settle i fun s round => completeRound s round overloaded
  | .expire now =>
    let probes := expireProbeStates L.probes now
    if L.probes.isSome && probes.isNone then ⟨none, L.rounds, L.rounds.length⟩ else L
  | .other op => { L with probes := op.val.run C name L.probes }

/-- A context that does not exist yet. -/
def empty : Ledger R T := ⟨none, [], 0⟩

/-- The ledger after some events. -/
def run (C : Catalog R) (name : Bytes) (target : T) (L : Ledger R T) (events : List (Event R T)) :
    Ledger R T :=
  events.foldl (step C name target) L

/-- The state of the context. -/
def state (L : Ledger R T) : ProbeState R := L.probes.getD .zero

/-- Every settled round is settled before its context is deleted, and before `2 ^ 64` more rounds
are granted. -/
def Prompt (C : Catalog R) (name : Bytes) (target : T) : Ledger R T → List (Event R T) → Prop
  | _, [] => True
  | L, e :: events =>
    (∀ i ∈ e.settles, L.born ≤ i ∧ L.rounds.length ≤ i + 2 ^ 64) ∧
      Prompt C name target (L.step C name target e) events

/-- The rounds of the context are numbered in the order they were granted. -/
structure Numbered (L : Ledger R T) : Prop where
  born_le : L.born ≤ L.rounds.length
  ids : ∀ i round, L.born ≤ i → L.rounds[i]? = some round → round.id = (i - L.born + 1) % 2 ^ 64
  latest : L.state.round = (L.rounds.length - L.born) % 2 ^ 64
  known : L.born < L.rounds.length → L.probes.isSome

end Ledger

section Steps

variable {C : Catalog R} {name : Bytes} {target : T} {L : Ledger R T}

variable {events : List (Event R T)} {i : Nat} {round : Round R T}

namespace Ledger

theorem settle_rounds (L : Ledger R T) (i : Nat) (f : ProbeState R → Round R T → ProbeState R) :
    (L.settle i f).rounds = L.rounds := by
  unfold settle
  split <;> rfl

theorem settle_born (L : Ledger R T) (i : Nat) (f : ProbeState R → Round R T → ProbeState R) :
    (L.settle i f).born = L.born := by
  unfold settle
  split <;> rfl

/-- A context is deleted or stays as it is. -/
theorem expire_cases (C : Catalog R) (name : Bytes) (target : T) (L : Ledger R T) (now : Time) :
    L.step C name target (.expire now) = L ∨
      L.state.seen + probeStateTTL < now ∧
        L.step C name target (.expire now) = ⟨none, L.rounds, L.rounds.length⟩ := by
  cases hprobes : L.probes with
  | none => exact .inl (by simp [step, hprobes])
  | some s =>
    have hstate : L.state = s := by rw [state, hprobes, Option.getD_some]
    rw [hstate]
    by_cases hold : now - s.seen > probeStateTTL
    · exact .inr ⟨lt_sub_iff_add_lt'.mp hold,
        by simp [step, expireProbeStates, hprobes, Option.filter, hold]⟩
    · exact .inl (by simp [step, expireProbeStates, hprobes, Option.filter, hold])

/-- Settling either applies to nothing or to the state of the context. -/
theorem settle_cases (L : Ledger R T) (i : Nat) (f : ProbeState R → Round R T → ProbeState R) :
    L.settle i f = L ∨
      ∃ round, L.rounds[i]? = some round ∧ L.probes = some L.state ∧
        L.settle i f = { L with probes := some (f L.state round) } := by
  unfold settle state
  cases hround : L.rounds[i]? with
  | none => exact .inl rfl
  | some round =>
    cases hprobes : L.probes with
    | none =>
      refine .inl ?_
      dsimp only
      rw [Option.map_none, ← hprobes]
    | some s => exact .inr ⟨round, rfl, rfl, rfl⟩

/-- Rounds that were granted stay in the ledger. -/
theorem step_rounds (C : Catalog R) (name : Bytes) (target : T) (L : Ledger R T) (e : Event R T) :
    L.rounds <+: (L.step C name target e).rounds := by
  cases e with
  | request records now refresh => exact List.prefix_append _ _
  | abandon i | complete i overloaded => exact (settle_rounds L i _) ▸ List.prefix_rfl
  | expire now =>
    rcases expire_cases C name target L now with heq | ⟨-, heq⟩ <;> rw [heq]
  | other op => exact List.prefix_rfl

theorem run_rounds (C : Catalog R) (name : Bytes) (target : T) (L : Ledger R T)
    (events : List (Event R T)) : L.rounds <+: (L.run C name target events).rounds := by
  induction events generalizing L with
  | nil => exact List.prefix_rfl
  | cons e events ih => exact (step_rounds C name target L e).trans (ih _)

/-- Events one after the other. -/
theorem run_append (L : Ledger R T) (events more : List (Event R T)) :
    L.run C name target (events ++ more) = (L.run C name target events).run C name target more :=
  List.foldl_append

/-- The first of two parts of a run grants no round if both together grant none. -/
theorem run_rounds_of_append {more : List (Event R T)}
    (h : (L.run C name target (events ++ more)).rounds = L.rounds) :
    (L.run C name target events).rounds = L.rounds := by
  have hfirst := run_rounds C name target L events
  have hrest := run_rounds C name target (L.run C name target events) more
  rw [← run_append, h] at hrest
  exact hrest.eq_of_length_le hfirst.length_le

/-- If no round is granted in the end, none is granted by the first event. -/
theorem step_rounds_of_run {e : Event R T}
    (h : (L.run C name target (e :: events)).rounds = L.rounds) :
    (L.step C name target e).rounds = L.rounds :=
  @run_rounds_of_append _ _ C name target L [e] events h

theorem Numbered.empty : Numbered (empty : Ledger R T) where
  born_le := le_rfl
  ids := fun i round _ h => by cases h
  latest := rfl
  known := fun h => absurd h (lt_irrefl 0)

/-- Rounds that were granted keep their numbers. -/
theorem Numbered.of_rounds_eq {L L' : Ledger R T} (h : Numbered L) (hrounds : L'.rounds = L.rounds)
    (hborn : L'.born = L.born) (hround : L'.state.round = L.state.round)
    (hknown : L.probes.isSome → L'.probes.isSome) : Numbered L' where
  born_le := by rw [hborn, hrounds]; exact h.born_le
  ids := fun i round hi hround => by
    rw [hborn] at hi ⊢
    exact h.ids i round hi (hrounds ▸ hround)
  latest := by rw [hround, hrounds, hborn, h.latest]
  known := fun hlt => hknown (h.known (by rwa [hrounds, hborn] at hlt))

/-- A context that was deleted has granted no rounds. -/
theorem Numbered.deleted (rounds : List (Round R T)) :
    Numbered (⟨none, rounds, rounds.length⟩ : Ledger R T) where
  born_le := le_rfl
  ids := fun i round hi h => absurd (List.getElem?_eq_some_iff.mp h).1 (not_lt.mpr hi)
  latest := by simp [state, ProbeState.zero]
  known := fun h => absurd h (lt_irrefl _)

/-- The state after a request. -/
theorem state_request (C : Catalog R) (name : Bytes) (target : T) (L : Ledger R T)
    (records : List R) (now : Time) (refresh : Duration) :
    (L.step C name target (.request records now refresh)).state =
      (budgetedJobs C name L.probes records target now refresh).1 :=
  rfl

theorem Numbered.settle {f : ProbeState R → Round R T → ProbeState R} (h : Numbered L) (i : Nat)
    (hf : ∀ s round, (f s round).round = s.round) : Numbered (L.settle i f) := by
  rcases settle_cases L i f with heq | ⟨round, -, -, heq⟩
  · rw [heq]
    exact h
  · rw [heq]
    exact h.of_rounds_eq rfl rfl (hf L.state round) fun _ => rfl

theorem abandonRound_round (s : ProbeState R) (round : Round R T) :
    (abandonRound s round).round = s.round := by
  unfold abandonRound
  split_ifs <;> rfl

theorem completeRound_marks (s : ProbeState R) (round : Round R T) (overloaded : Bool) :
    (completeRound s round overloaded).marks = s.marks := by
  unfold completeRound
  split_ifs <;> rfl

theorem marks_other (L : Ledger R T) (op : { op : Op R T // op.quiet = true }) :
    (L.step C name target (.other op)).state.marks = L.state.marks := by
  rw [state, step, Op.run_of_quiet C name L.probes op.property, state]
  cases L.probes with
  | none => rfl
  | some s => exact (Op.onState_quiet C name s op.property).marks_eq

/-- Every event keeps the numbering. -/
theorem Numbered.step (h : Numbered L) (e : Event R T) : Numbered (L.step C name target e) := by
  cases e with
  | abandon i => exact h.settle i abandonRound_round
  | complete i overloaded =>
    exact h.settle i fun s round => congrArg (·.1.2.1) (completeRound_marks s round overloaded)
  | expire now =>
    rcases expire_cases C name target L now with heq | ⟨-, heq⟩
    · rwa [heq]
    · rw [heq]
      exact .deleted L.rounds
  | other op =>
    refine h.of_rounds_eq rfl rfl (congrArg (·.1.2.1) (marks_other L op)) fun hsome => ?_
    rw [Ledger.step, Op.run_of_quiet C name L.probes op.property, Option.isSome_map, hsome]
  | request records now refresh =>
    cases hround : (budgetedJobs C name L.probes records target now refresh).2 with
    | none =>
      refine h.of_rounds_eq ?_ rfl ?_ fun _ => rfl
      · rw [Ledger.step, hround]
        exact List.append_nil _
      · rw [state_request, budgetedJobs_refused hround]
        rfl
    | some round =>
      obtain ⟨-, -, hnext, hid, -, -⟩ := budgetedJobs_granted hround
      have hrounds : (L.step C name target (.request records now refresh)).rounds =
          L.rounds ++ [round] := by
        rw [Ledger.step, hround]
        rfl
      have hborn := h.born_le
      have hnumber : (budgetedJobs C name L.probes records target now refresh).1.round =
          (L.rounds.length - L.born + 1) % 2 ^ 64 := by
        rw [hnext]
        change (L.state.round + 1) % 2 ^ 64 = _
        rw [h.latest, Nat.mod_add_mod]
      have hlength : (L.rounds ++ [round]).length = L.rounds.length + 1 := List.length_append
      refine ⟨?_, fun i r hi hr => ?_, ?_, fun _ => rfl⟩
      · rw [hrounds, hlength]
        exact Nat.le_succ_of_le hborn
      · change round.id = _ at hid
        rw [hrounds] at hr
        rcases Nat.lt_or_ge i L.rounds.length with hlt | hge
        · exact h.ids i r hi (by rwa [List.getElem?_append_left hlt] at hr)
        · rw [List.getElem?_append_right hge, List.getElem?_singleton] at hr
          split_ifs at hr with hzero
          obtain rfl := Option.some.inj hr
          rw [hid, hnumber, show i = L.rounds.length by omega]
          rfl
      · rw [state_request, hnumber, hrounds, hlength]
        change _ = (L.rounds.length + 1 - L.born) % 2 ^ 64
        rw [Nat.sub_add_comm hborn]

theorem Numbered.run (h : Numbered L) (events : List (Event R T)) :
    Numbered (L.run C name target events) := by
  induction events generalizing L with
  | nil => exact h
  | cons e events ih => exact ih (h.step e)

/-! ## Late settlements -/

/-- A round of the context with the number of the latest one is the latest one. -/
theorem Numbered.eq_latest (h : Numbered L) (hround : L.rounds[i]? = some round)
    (hprompt : L.born ≤ i ∧ L.rounds.length ≤ i + 2 ^ 64) (hid : L.state.round = round.id) :
    i + 1 = L.rounds.length := by
  have hlt : i < L.rounds.length := (List.getElem?_eq_some_iff.mp hround).1
  rw [h.latest, h.ids i round hprompt.1 hround] at hid
  omega

/-- Settling a round that is not the latest changes nothing. -/
theorem Numbered.settle_late {f : ProbeState R → Round R T → ProbeState R} (h : Numbered L)
    (hf : ∀ s round, s.round ≠ round.id → f s round = s)
    (hprompt : L.born ≤ i ∧ L.rounds.length ≤ i + 2 ^ 64) (hlate : i + 1 ≠ L.rounds.length) :
    L.settle i f = L := by
  rcases settle_cases L i f with heq | ⟨round, hround, hprobes, heq⟩
  · exact heq
  · rw [heq, hf _ round fun hid => hlate (h.eq_latest hround hprompt hid), ← hprobes]

theorem abandonRound_late (s : ProbeState R) (round : Round R T) (h : s.round ≠ round.id) :
    abandonRound s round = s :=
  if_neg h

theorem completeRound_late (overloaded : Bool) (s : ProbeState R) (round : Round R T)
    (h : s.round ≠ round.id) : completeRound s round overloaded = s :=
  if_neg h

/-- What an event that grants no round does: it deletes the context after a long time; or it
leaves the claim of the latest round as it is, unless it abandons this round, and only a visit
changes the time of the last one. -/
theorem Numbered.step_claim (h : Numbered L) {e : Event R T}
    (hprompt : ∀ i ∈ e.settles, L.born ≤ i ∧ L.rounds.length ≤ i + 2 ^ 64)
    (hrounds : (L.step C name target e).rounds = L.rounds) :
    (∃ now ∈ e.time, L.state.seen + probeStateTTL < now ∧
      (L.step C name target e).born = L.rounds.length) ∨
    (L.step C name target e).born = L.born ∧
      ((L.step C name target e).state.seen = L.state.seen ∨
        (L.step C name target e).state.seen ∈ e.time) ∧
      ((L.step C name target e).state.claim = L.state.claim ∨
        ∃ i round, e = .abandon i ∧ i + 1 = L.rounds.length ∧ L.rounds[i]? = some round ∧
          (L.step C name target e).state.claim = (0, L.state.round, round.cursor)) := by
  have hkept : ∀ (L' : Ledger R T) {visited abandoned : Prop}, L'.born = L.born →
      L'.state.marks = L.state.marks → L'.born = L.born ∧
        (L'.state.seen = L.state.seen ∨ visited) ∧
        (L'.state.claim = L.state.claim ∨ abandoned) := fun L' _ _ hborn hmarks =>
    ⟨hborn, .inl (congrArg (·.2) hmarks), .inl (congrArg (·.1) hmarks)⟩
  cases e with
  | request records now refresh =>
    refine .inr ⟨rfl, .inr (congrArg some (budgetedJobs_seen ..).symm), .inl ?_⟩
    cases hround : (budgetedJobs C name L.probes records target now refresh).2 with
    | none =>
      rw [state_request, budgetedJobs_refused hround]
      rfl
    | some round =>
      rw [Ledger.step, hround] at hrounds
      exact absurd hrounds (by simp)
  | expire now =>
    rcases expire_cases C name target L now with heq | ⟨hold, heq⟩
    · rw [heq]
      exact .inr (hkept L rfl rfl)
    · exact .inl ⟨now, rfl, hold, by rw [heq]⟩
  | complete i overloaded =>
    refine .inr ?_
    rw [Ledger.step]
    rcases settle_cases L i (fun s round => completeRound s round overloaded) with
      heq | ⟨round, -, -, heq⟩
    · rw [heq]
      exact hkept L rfl rfl
    · rw [heq]
      exact hkept _ rfl (completeRound_marks L.state round overloaded)
  | other op => exact .inr (hkept _ rfl (marks_other L op))
  | abandon i =>
    refine .inr ?_
    rw [Ledger.step]
    rcases settle_cases L i abandonRound with heq | ⟨round, hround, hprobes, heq⟩
    · rw [heq]
      exact hkept L rfl rfl
    · by_cases hid : L.state.round = round.id
      · have hlatest := h.eq_latest hround (hprompt i rfl) hid
        have hafter : (L.settle i abandonRound).state =
            { L.state with untilAt := 0, cursor := round.cursor } := by
          rw [heq]
          exact if_pos hid
        refine ⟨by rw [heq], .inl ?_, .inr ⟨i, round, rfl, hlatest, hround, ?_⟩⟩
        · rw [hafter]
        · rw [hafter]
          rfl
      · rw [heq, abandonRound_late _ round hid, ← hprobes]
        exact hkept L rfl rfl

/-- The claim of the latest round stands until another round is granted or it is abandoned, or
the context is deleted, which takes longer than a day. -/
theorem Numbered.claim_stands {since : Time} (h : Numbered L)
    (hprompt : Prompt C name target L events)
    (hrounds : (L.run C name target events).rounds = L.rounds)
    (hnot : ∀ i, i + 1 = L.rounds.length → Event.abandon i ∉ events)
    (hseen : since ≤ L.state.seen) (htimes : ∀ e ∈ events, ∀ now ∈ e.time, since ≤ now) :
    (L.run C name target events).state.claim = L.state.claim ∨
      ∃ e ∈ events, ∃ now ∈ e.time, since + probeStateTTL < now := by
  induction events generalizing L with
  | nil => exact .inl rfl
  | cons e events ih =>
    have hstep := step_rounds_of_run hrounds
    rcases h.step_claim hprompt.1 hstep with
      ⟨now, hnow, hold, -⟩ | ⟨-, hvisit, hclaim | ⟨i, round, rfl, hlatest, -, -⟩⟩
    · exact .inr ⟨e, List.mem_cons_self .., now, hnow, (Int.add_le_add_right hseen _).trans_lt hold⟩
    · have hrest := ih (h.step e) hprompt.2 (hrounds.trans hstep.symm)
        (fun i hi hmem =>
          hnot i (hi.trans (congrArg List.length hstep)) (List.mem_cons_of_mem _ hmem))
        (by
          rcases hvisit with hsame | hnow
          · rwa [hsame]
          · exact htimes e (List.mem_cons_self ..) _ hnow)
        fun e he => htimes e (List.mem_cons_of_mem _ he)
      rcases hrest with hrest | ⟨e', he', hnow⟩
      · exact .inl (hrest.trans hclaim)
      · exact .inr ⟨e', List.mem_cons_of_mem _ he', hnow⟩
    · exact absurd (List.mem_cons_self ..) (hnot i hlatest)

theorem Numbered.born_le_step (h : Numbered L) (e : Event R T) :
    L.born ≤ (L.step C name target e).born := by
  cases e with
  | request | other => exact le_rfl
  | abandon i | complete i overloaded => exact (settle_born L i _).ge
  | expire now =>
    rcases expire_cases C name target L now with heq | ⟨-, heq⟩
    · rw [heq]
    · rw [heq]
      exact h.born_le

/-- The context is not an older one in the end. -/
theorem Numbered.born_le_run (h : Numbered L) (events : List (Event R T)) :
    L.born ≤ (L.run C name target events).born := by
  induction events generalizing L with
  | nil => exact le_rfl
  | cons e events ih => exact (h.born_le_step e).trans (ih (h.step e))

/-- The first of two parts of a run deletes no context if both together delete none. -/
theorem Numbered.run_born_of_append {more : List (Event R T)} (h : Numbered L)
    (hborn : (L.run C name target (events ++ more)).born = L.born) :
    (L.run C name target events).born = L.born := by
  refine le_antisymm ?_ (h.born_le_run events)
  rw [← hborn, run_append]
  exact (h.run events).born_le_run more

/-- Once the latest round is abandoned, the cursor stays where this round began, as long as the
context is not deleted. -/
theorem Numbered.cursor_stands (h : Numbered L) (hprompt : Prompt C name target L events)
    (hrounds : (L.run C name target events).rounds = L.rounds)
    (hborn : (L.run C name target events).born = L.born) (hround : L.rounds[i]? = some round)
    (hlatest : i + 1 = L.rounds.length) (hlive : L.born ≤ i)
    (hcursor : L.state.cursor = round.cursor) :
    (L.run C name target events).state.cursor = round.cursor := by
  induction events generalizing L with
  | nil => exact hcursor
  | cons e events ih =>
    have hstep := step_rounds_of_run hrounds
    have hrun : (L.step C name target e).born ≤ L.born :=
      hborn ▸ (h.step e).born_le_run events
    rcases h.step_claim hprompt.1 hstep with ⟨now, -, -, hdeleted⟩ | ⟨hsame, -, hclaim⟩
    · omega
    · refine ih (h.step e) hprompt.2 (hrounds.trans hstep.symm) (hborn.trans hsame.symm)
        (hstep ▸ hround) (hstep ▸ hlatest) (hsame.trans_le hlive) ?_
      rcases hclaim with hclaim | ⟨j, round', rfl, hj, hround', hclaim⟩
      · exact (congrArg (·.2.2) hclaim).trans hcursor
      · obtain rfl : i = j := by omega
        obtain rfl := Option.some.inj (hround.symm.trans hround')
        exact congrArg (·.2.2) hclaim

/-- Abandoning a round with the number of the latest one. -/
theorem Numbered.abandon_state (h : Numbered L) (hlive : L.born < L.rounds.length)
    (hround : L.rounds[i]? = some round) (hid : L.state.round = round.id) :
    (L.step C name target (.abandon i)).state =
      { L.state with untilAt := 0, cursor := round.cursor } := by
  obtain ⟨s, hs⟩ := Option.isSome_iff_exists.mp (h.known hlive)
  have hstate : L.state = s := by rw [state, hs, Option.getD_some]
  rw [hstate] at hid ⊢
  change (L.settle i abandonRound).state = _
  rw [Ledger.settle, hround, hs]
  exact if_pos hid

/-- Abandoning the latest round takes the cursor back to where the round began, and nothing moves
it until the next round. -/
theorem Numbered.cursor_of_abandoned (h : Numbered L)
    (hprompt : Prompt C name target L (.abandon i :: events))
    (hrounds : (L.run C name target (.abandon i :: events)).rounds = L.rounds)
    (hborn : (L.run C name target (.abandon i :: events)).born = L.born)
    (hround : L.rounds[i]? = some round) (hlatest : i + 1 = L.rounds.length) (hlive : L.born ≤ i) :
    (L.run C name target (.abandon i :: events)).state.cursor = round.cursor := by
  have hstep : (L.step C name target (.abandon i)).rounds = L.rounds := settle_rounds L i _
  have hsame : (L.step C name target (.abandon i)).born = L.born := settle_born L i _
  have hid : L.state.round = round.id := by
    rw [h.latest, h.ids i round hlive hround, ← hlatest, Nat.sub_add_comm hlive]
  exact (h.step _).cursor_stands hprompt.2 (hrounds.trans hstep.symm) (hborn.trans hsame.symm)
    (hstep ▸ hround) (hstep ▸ hlatest) (hsame.trans_le hlive)
    (congrArg (·.cursor) (h.abandon_state (by omega) hround hid))

theorem Prompt.append {more : List (Event R T)} (h : Prompt C name target L (events ++ more)) :
    Prompt C name target (L.run C name target events) more := by
  induction events generalizing L with
  | nil => exact h
  | cons e events ih => exact ih h.2

end Ledger

/-- A second round over the same records repeats the jobs of the first. -/
theorem jobs_eq {probes probes' : Option (ProbeState R)} {records : List R} {now now' : Time}
    {refresh refresh' : Duration} {round' : Round R T}
    (h : (budgetedJobs C name probes records target now refresh).2 = some round)
    (h' : (budgetedJobs C name probes' records target now' refresh').2 = some round')
    (hcursor : (probes'.getD .zero).cursor = (probes.getD .zero).cursor)
    (hcohort : (probes'.getD .zero).cohort =
      (budgetedJobs C name probes records target now refresh).1.cohort)
    (hdemand : (probes'.getD .zero).demand =
      (budgetedJobs C name probes records target now refresh).1.demand)
    (hrejected : (probes'.getD .zero).rejected =
      (budgetedJobs C name probes records target now refresh).1.rejected) :
    round'.maintain = round.maintain ∧ round'.explore = round.explore := by
  obtain ⟨hkept, hmaintain, hexplore⟩ := (budgetedJobs_granted h).1
  obtain ⟨-, hmaintain', hexplore'⟩ := (budgetedJobs_granted h').1
  obtain ⟨hsame, hsame', -, -⟩ := budgetedJobs_fst C name probes records target now refresh
  rw [hkept] at hcohort
  rw [hsame] at hdemand
  rw [hsame'] at hrejected
  -- the members without a record are gone already
  have hagain : keptCohort C records (probes'.getD .zero).cohort =
      keptCohort C records (probes.getD .zero).cohort := by
    rw [hcohort, keptCohort, keptCohort, List.filter_filter]
    simp only [Bool.and_self]
  have hprotected : (probes'.getD .zero).isProtected = (probes.getD .zero).isProtected := by
    funext id
    rw [ProbeState.isProtected, ProbeState.isProtected, hdemand, hrejected]
  have hjobs : round'.maintain = round.maintain := by
    rw [hmaintain', hmaintain, maintainJobs, maintainJobs, hagain, hprotected]
  refine ⟨hjobs, ?_⟩
  rw [hexplore', hexplore, hjobs, hagain, hcursor]

end Steps

theorem roundWindow_le (refresh : Duration) : roundWindow refresh ≤ probeStateTTL := by
  have hcadence : probeCadence evidencePolicy ≤ probeStateTTL := by decide
  unfold roundWindow
  split_ifs
  · exact (min_le_left _ _).trans hcadence
  · exact hcadence

/-- **One effective round per window.**  For any events of any Gateways, in any order, as long as
rounds are settled before their context is deleted and before `2 ^ 64` more are granted:

* of two rounds with none in between, the second is granted at or after the end of the window of
  the first, or the first was abandoned before, if the times in between lie in between;
* settling a round of the context that is not the latest changes nothing;
* after the latest round was abandoned, the next one over the same records has the same jobs, if
  the context was not deleted and cohort, demand and rejected endpoints are as they were. -/
theorem one_round_per_window (C : Catalog R) (name : Bytes) (target : T)
    (events : List (Event R T)) :
    let L := Ledger.empty.run C name target events
    (∀ records now refresh round between records' now' refresh' round',
      let L₁ := L.step C name target (.request records now refresh)
      let L₂ := L₁.run C name target between
      L₁.Prompt C name target between →
      (∀ e ∈ between, ∀ t ∈ e.time, now ≤ t ∧ t ≤ now') →
      (budgetedJobs C name L.probes records target now refresh).2 = some round →
      L₂.rounds = L₁.rounds →
      (budgetedJobs C name L₂.probes records' target now' refresh').2 = some round' →
      now + roundWindow refresh ≤ now' ∨ Event.abandon L.rounds.length ∈ between) ∧
    (∀ i overloaded, L.born ≤ i → i + 1 < L.rounds.length → L.rounds.length ≤ i + 2 ^ 64 →
      L.step C name target (.abandon i) = L ∧ L.step C name target (.complete i overloaded) = L) ∧
    ∀ records now refresh round between between' now' refresh' round',
      let L₁ := L.step C name target (.request records now refresh)
      let L₂ := L₁.run C name target (between ++ .abandon L.rounds.length :: between')
      L₁.Prompt C name target (between ++ .abandon L.rounds.length :: between') →
      (budgetedJobs C name L.probes records target now refresh).2 = some round →
      L₂.rounds = L₁.rounds → L₂.born = L₁.born →
      L₂.state.cohort = L₁.state.cohort → L₂.state.demand = L₁.state.demand →
      L₂.state.rejected = L₁.state.rejected →
      (budgetedJobs C name L₂.probes records target now' refresh').2 = some round' →
      round'.maintain = round.maintain ∧ round'.explore = round.explore := by
  intro L
  have hnumbered : L.Numbered := Ledger.Numbered.empty.run events
  have hgranted : ∀ {records : List R} {now : Time} {refresh : Duration} {round : Round R T},
      (budgetedJobs C name L.probes records target now refresh).2 = some round →
      (L.step C name target (.request records now refresh)).rounds = L.rounds ++ [round] := by
    intro records now refresh round hround
    rw [Ledger.step, hround]
    rfl
  refine ⟨?_, ?_, ?_⟩
  · intro records now refresh round between records' now' refresh' round' L₁ L₂ hprompt htimes
      hround hrounds hround'
    by_cases habandoned : Event.abandon L.rounds.length ∈ between
    · exact .inr habandoned
    · refine .inl ?_
      have hstands := (hnumbered.step (.request records now refresh)).claim_stands hprompt hrounds
        (fun i hi => by
          rw [hgranted hround, List.length_append, List.length_singleton] at hi
          rwa [show i = L.rounds.length by omega])
        (budgetedJobs_seen C name L.probes records target now refresh).ge
        fun e he t ht => (htimes e he t ht).1
      rcases hstands with hstands | ⟨e, he, t, ht, hold⟩
      · have hdue : L₂.state.untilAt ≤ now' := by
          have hsome := budgetedJobs_isSome C name L₂.probes records' target now' refresh'
          rw [hround'] at hsome
          exact of_decide_eq_true hsome.symm
        rw [show L₂.state.untilAt = L₁.state.untilAt from congrArg (·.1) hstands,
          Ledger.state_request, (budgetedJobs_granted hround).2.1] at hdue
        exact hdue
      · -- the context was deleted: the window is over
        exact (Int.add_le_add_left (roundWindow_le refresh) now).trans
          (hold.le.trans (htimes e he t ht).2)
  · intro i overloaded hborn hlate hprompt
    exact ⟨hnumbered.settle_late Ledger.abandonRound_late ⟨hborn, hprompt⟩ (by omega),
      hnumbered.settle_late (Ledger.completeRound_late overloaded) ⟨hborn, hprompt⟩ (by omega)⟩
  · intro records now refresh round between between' now' refresh' round' L₁ L₂ hprompt hround
      hrounds hborn hcohort hdemand hrejected hround'
    have hnumbered₁ : L₁.Numbered := hnumbered.step _
    have hrounds' := Ledger.run_rounds_of_append hrounds
    have hborn' := hnumbered₁.run_born_of_append hborn
    have hlast := hrounds'.trans (hgranted hround)
    have hrun : L₂ = _ := Ledger.run_append ..
    rw [hrun] at hrounds hborn
    have hcursor := (hnumbered₁.run between).cursor_of_abandoned hprompt.append
      (hrounds.trans hrounds'.symm) (hborn.trans hborn'.symm)
      (by rw [hlast, List.getElem?_concat_length]) (by rw [hlast, List.length_append]; rfl)
      (hborn'.trans_le hnumbered.born_le)
    rw [← hrun] at hcursor
    exact jobs_eq hround hround' (hcursor.trans (budgetedJobs_granted hround).2.2.2.2.1) hcohort
      hdemand hrejected

namespace Sample

/-- A round that is granted and abandoned. -/
def abandoned : List (Event Nat Unit) := [.request [1, 2] 1 0, .abandon 0]

/-- The round after an abandoned one has its jobs, the next one waits for the window of that round
to end, and settling the first one again changes nothing. -/
theorem one_round_per_window_abandoned :
    let L := Ledger.empty.run named (ascii "default") () abandoned
    let L' := L.step named (ascii "default") () (.request [1, 2] 2 0)
    (∃ round round',
      (budgetedJobs named (ascii "default") none [1, 2] () 1 0).2 = some round ∧
      (budgetedJobs named (ascii "default") L.probes [1, 2] () 2 0).2 = some round' ∧
      round.explore ≠ [] ∧ round'.explore = round.explore) ∧
    (∀ now round, (budgetedJobs named (ascii "default") L'.probes [1, 2] () now 0).2 =
      some round → 2 + roundWindow 0 ≤ now) ∧
    L'.step named (ascii "default") () (.complete 0 true) = L' := by
  intro L L'
  obtain ⟨round, hround⟩ := Option.isSome_iff_exists.mp (show
    (budgetedJobs named (ascii "default") none [1, 2] () 1 0).2.isSome = true by decide +kernel)
  obtain ⟨round', hround'⟩ := Option.isSome_iff_exists.mp (show
    (budgetedJobs named (ascii "default") L.probes [1, 2] () 2 0).2.isSome = true by
      decide +kernel)
  have hjobs : (budgetedJobs named (ascii "default") none [1, 2] () 1 0).2.map
      (·.explore.length) = some 6 := by decide +kernel
  rw [hround] at hjobs
  refine ⟨⟨round, round', hround, hround', fun hnil => ?_, ?_⟩, fun now later hlater => ?_, ?_⟩
  · rw [Option.map_some, hnil] at hjobs
    cases hjobs
  · exact ((one_round_per_window named (ascii "default") () []).2.2 [1, 2] 1 0 round [] [] 2 0
      round' ⟨fun i hi => by cases hi; decide +kernel, trivial⟩ hround rfl rfl rfl rfl rfl
      hround').2
  · exact ((one_round_per_window named (ascii "default") () abandoned).1 [1, 2] 2 0 round' []
      [1, 2] now 0 later trivial (by simp) hround' rfl hlater).resolve_right (by simp)
  · exact ((one_round_per_window named (ascii "default") ()
      (abandoned ++ [.request [1, 2] 2 0])).2.1 0 true (by decide +kernel) (by decide +kernel)
      (by decide +kernel)).2

end Sample

end Egressfox.Scheduling

namespace Egressfox.Scheduling.Sample

open Lib

/-- No record is ever looked at. -/
def noCatalog : Catalog Unit := ⟨fun _ => [], fun _ => true⟩

/-- One request at the end of each window. -/
def requests (count : Nat) : List (Event Unit Unit) :=
  (List.range count).map fun (k : Nat) => .request [] (k * probeCadence evidencePolicy) 0

/-- The ledger after the requests. -/
def requested (count : Nat) : Ledger Unit Unit :=
  Ledger.empty.run noCatalog (ascii "default") () (requests count)

theorem requested_succ (count : Nat) :
    requested (count + 1) = (requested count).step noCatalog (ascii "default") ()
      (.request [] (count * probeCadence evidencePolicy) 0) := by
  rw [requested, requests, List.range_succ, List.map_append, Ledger.run_append]
  rfl

theorem requested_numbered (count : Nat) : (requested count).Numbered :=
  Ledger.Numbered.empty.run _

/-- Every request is granted. -/
theorem requested_spec (count : Nat) :
    (requested count).state.untilAt = count * probeCadence evidencePolicy ∧
      (requested count).rounds.length = count ∧ (requested count).born = 0 := by
  induction count with
  | zero => exact ⟨(Int.zero_mul _).symm, rfl, rfl⟩
  | succ count ih =>
    obtain ⟨huntil, hlength, hborn⟩ := ih
    have hsome := budgetedJobs_isSome noCatalog (ascii "default") (requested count).probes [] ()
      (count * probeCadence evidencePolicy) 0
    rw [decide_eq_true (show ((requested count).probes.getD .zero).untilAt ≤ _ from huntil.le)]
      at hsome
    obtain ⟨round, hround⟩ := Option.isSome_iff_exists.mp hsome
    have hwindow : roundWindow 0 = probeCadence evidencePolicy := rfl
    rw [requested_succ]
    refine ⟨?_, ?_, hborn⟩
    · rw [Ledger.state_request, (budgetedJobs_granted hround).2.1, hwindow]
      push_cast
      ring
    · rw [Ledger.step, hround, List.length_append, hlength]
      rfl

/-- Abandoning the first round once the numbers have started again. -/
theorem abandon_first_wraps {count : Nat} (hcount : 1 < count) (hwrap : count % 2 ^ 64 = 1) :
    1 < (requested count).rounds.length ∧
      (requested count).step noCatalog (ascii "default") () (.abandon 0) ≠ requested count := by
  obtain ⟨huntil, hlength, hborn⟩ := requested_spec count
  have hnumbered := requested_numbered count
  rw [hlength]
  refine ⟨hcount, fun heq => ?_⟩
  obtain ⟨round, hround⟩ : ∃ round, (requested count).rounds[0]? = some round :=
    ⟨_, List.getElem?_eq_getElem (by omega)⟩
  have hid : (requested count).state.round = round.id := by
    rw [hnumbered.latest, hnumbered.ids 0 round hborn.le hround, hlength, hborn, Nat.sub_zero,
      hwrap]
    rfl
  have hstate : ((requested count).step noCatalog (ascii "default") () (.abandon 0)).state = _ :=
    hnumbered.abandon_state (by omega) hround hid
  rw [heq] at hstate
  have hzero : (requested count).state.untilAt = 0 := congrArg (·.untilAt) hstate
  have hcadence : 0 < probeCadence evidencePolicy := by decide
  rw [huntil] at hzero
  have hpos : 0 < (count : Int) * probeCadence evidencePolicy :=
    Int.mul_pos (by omega) hcadence
  exact hpos.ne' hzero

/-- The first round, and another one after the context was deleted. -/
def reborn : Ledger Unit Unit :=
  Ledger.empty.run noCatalog (ascii "default") ()
    [.request [] 1 0, .expire (2 + probeStateTTL), .request [] (2 + probeStateTTL) 0]

/-- Settling the first round changes the window of the latest one after the context was deleted:
another round is granted at once.  So it does after `2 ^ 64` further rounds. -/
theorem late_abandon_changes :
    (reborn.rounds.length = 2 ∧
      (reborn.step noCatalog (ascii "default") () (.abandon 0)).state.untilAt ≠
        reborn.state.untilAt ∧
      (budgetedJobs noCatalog (ascii "default")
        (reborn.step noCatalog (ascii "default") () (.abandon 0)).probes [] ()
        (2 + probeStateTTL) 0).2.isSome = true) ∧
    1 < (requested (2 ^ 64 + 1)).rounds.length ∧
      (requested (2 ^ 64 + 1)).step noCatalog (ascii "default") () (.abandon 0) ≠
        requested (2 ^ 64 + 1) :=
  ⟨by decide +kernel, abandon_first_wraps (by norm_num) (by norm_num)⟩

end Egressfox.Scheduling.Sample
