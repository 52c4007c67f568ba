import Egressfox.Checkpoint.Store
import Egressfox.Endpoint.Injective

/-!
# The checkpoint protocol

What `Reconciler.Reconcile` and `Apply` of `internal/reconcile/reconcile.go` do with one
scope of the checkpoint table and with the published output: recover, plan, stage,
publish, read back and commit.  Planning and rendering are left open, so any decision and
any receipt can be staged; the process may stop between any two steps; a write takes
effect or not, and is reported or not.

While every decision staged is durable, the rows of the scope can be decoded and the
process is that of `Lib.TwoSlot` (`Sim`), which is crash safe.  A decision that is
accepted but not durable breaks the scope: `crashSafe_iff`.
-/

namespace Egressfox.Checkpoint

open Lib Endpoint Observation Artifact Selection

/-- The two stores, and where the process stands. -/
structure Sys where
  table : Table
  output : Option Receipt
  phase : TwoSlot.Phase Receipt

inductive Action where
  | recover
  | stage (value : State) (receipt : Receipt) (now : Time)
  | publish (written reported : Bool)
  | readBack
  | commit
  | stop

inductive Event where
  | recover (current : Option Receipt) (result : Except String (Option State))
  | stage (value : State) (receipt : Receipt)
  | publish (receipt : Receipt) (written reported : Bool)
  | readBack (receipt : Receipt)
  | commit (receipt : Receipt)
  /-- `Reconcile` fails at this stage. -/
  | failed (stage : String)
  /-- The process crashes or has nothing more to do. -/
  | stop
deriving DecidableEq

/-- `RecoverDecision` with the receipt just read. -/
def recoverStep (unicode : Unicode) (scope : Bytes) (sys : Sys) : Event × Sys :=
  match recoverDecision unicode sys.table scope sys.output sys.output.isSome with
  | .error code => (.recover sys.output (.error code), sys)
  | .ok (result, table) => (.recover sys.output (.ok result), ⟨table, sys.output, .planning⟩)

theorem recoverStep_fst (unicode : Unicode) (scope : Bytes) (sys : Sys) :
    (recoverStep unicode scope sys).1 =
      .recover sys.output
        ((recoverDecision unicode sys.table scope sys.output sys.output.isSome).map Prod.fst) := by
  unfold recoverStep
  cases recoverDecision unicode sys.table scope sys.output sys.output.isSome <;> rfl

/-- `StageDecision` in `Apply`. -/
def stageStep (sys : Sys) (value : State) (receipt : Receipt) (now : Time) : Event × Sys :=
  match stageDecision sys.table value (some receipt) now with
  | .error _ => (.failed "state_stage", { sys with phase := .idle })
  | .ok table => (.stage value receipt, ⟨table, sys.output, .publishing receipt⟩)

/-- The second `CurrentReceipt` in `Apply`. -/
def readBackStep (sys : Sys) (receipt : Receipt) : Event × Sys :=
  if sys.output.isSome && receiptEqual sys.output (some receipt) then
    (.readBack receipt, { sys with phase := .committing receipt })
  else (.failed "publication_readback", { sys with phase := .idle })

/-- `CommitDecision` in `Apply`. -/
def commitStep (unicode : Unicode) (scope : Bytes) (sys : Sys) (receipt : Receipt) : Event × Sys :=
  match commitDecision unicode sys.table scope (some receipt) with
  | .error _ => (.failed "state_commit", { sys with phase := .idle })
  | .ok table => (.commit receipt, ⟨table, sys.output, .idle⟩)

/-- One step of the process. -/
def step (unicode : Unicode) (scope : Bytes) (sys : Sys) (action : Action) : Option (Event × Sys) :=
  match action, sys.phase with
  | .recover, .idle => some (recoverStep unicode scope sys)
  | .stage value receipt now, .planning =>
    if value.scope = scope then some (stageStep sys value receipt now) else none
  | .publish written reported, .publishing receipt =>
    some (.publish receipt written reported,
      { sys with
        output := if written then some receipt else sys.output
        phase := if reported then .reading receipt else .idle })
  | .readBack, .reading receipt => some (readBackStep sys receipt)
  | .commit, .committing receipt => some (commitStep unicode scope sys receipt)
  | .stop, _ => some (.stop, { sys with phase := .idle })
  | _, _ => none

/-- A run, with its events in order. -/
def run (unicode : Unicode) (scope : Bytes) : Sys → List Action → Option (List Event × Sys)
  | sys, [] => some ([], sys)
  | sys, action :: rest => do
      let (event, sys') ← step unicode scope sys action
      let (trace, last) ← run unicode scope sys' rest
      return (event :: trace, last)

/-- A process that has no rows yet. -/
def Sys.Fresh (scope : Bytes) (sys : Sys) : Prop :=
  sys.table scope .pending = none ∧ sys.table scope .committed = none ∧ sys.phase = .idle

/-! ## Crash safety -/

/-- Neither a recovery nor a staging. -/
def Event.Quiet : Event → Prop
  | .recover _ _ => False
  | .stage _ _ => False
  | _ => True

/-- The crash safety of a trace. -/
structure CrashSafe (trace : List Event) : Prop where
  /-- What is returned was staged with the current receipt. -/
  sound : ∀ {pre post : List Event} {current : Option Receipt} {value : State},
    trace = pre ++ .recover current (.ok (some value)) :: post →
    ∃ receipt, current = some receipt ∧ .stage value receipt ∈ pre
  /-- The decision staged last is returned if its receipt is current. -/
  staged : ∀ {pre mid post : List Event} {value : State} {receipt : Receipt}
    {result : Except String (Option State)},
    trace = pre ++ .stage value receipt :: (mid ++ .recover (some receipt) result :: post) →
    (∀ e ∈ mid, e.Quiet) → result = .ok (some value)
  /-- With the receipt the last recovery saw, and not that of the decision staged since, the
  answer is the same as then. -/
  unchanged : ∀ {pre mid mid' post : List Event} {current : Option Receipt}
    {result result' : Except String (Option State)} {value : State} {receipt : Receipt},
    trace = pre ++ .recover current result ::
      (mid ++ .stage value receipt :: (mid' ++ .recover current result' :: post)) →
    (∀ e ∈ mid, e.Quiet) → (∀ e ∈ mid', e.Quiet) → current ≠ some receipt → result' = result

/-! ## Simulation -/

/-- The event of the slots.  An operation that fails changes nothing, and ends the round. -/
def Event.toSlots : Event → TwoSlot.Event State Receipt
  | .recover current (.ok result) => .recover current result
  | .recover _ (.error _) => .stop
  | .stage value receipt => .stage value receipt
  | .publish receipt written reported => .publish receipt written reported
  | .readBack receipt => .readBack receipt
  | .commit receipt => .commit receipt
  | .failed _ => .stop
  | .stop => .stop

section

variable {event : Event} {value : State} {receipt : Receipt} {last : Sys} {actions : List Action}
  {trace : List Event} {scope : Bytes} {unicode : Unicode}

theorem Event.toSlots_eq_stage (h : event.toSlots = .stage value receipt) :
    event = .stage value receipt := by
  cases event with
  | stage v r => simpa [toSlots] using h
  | recover current result => cases result <;> cases h
  | _ => cases h

theorem Event.Quiet.toSlots (h : event.Quiet) : event.toSlots.Quiet := by
  cases event with
  | recover current result | stage value receipt => exact h.elim
  | _ => trivial

/-- The rows can be decoded, and the rest is the same. -/
structure Sim (unicode : Unicode) (scope : Bytes) (sys : Sys)
    (abs : TwoSlot.Sys State Receipt) : Prop where
  holds : Holds unicode scope sys.table abs.slots
  output : abs.output = sys.output
  phase : abs.phase = sys.phase

/-- A recovery fails in an unsafe scope only, and there nothing can be staged. -/
def Event.Sensible (scope : Bytes) : Event → Prop
  | .recover _ (.error _) => safeCheckpointScope scope = false
  | .stage _ _ => safeCheckpointScope scope = true
  | _ => True

section Simulation

variable {unicode : Unicode} {scope : Bytes} {sys : Sys} {abs : TwoSlot.Sys State Receipt}

/-- The slots' process may stop in any phase. -/
theorem Sim.stop (h : Sim unicode scope sys abs) :
    ∃ abs', TwoSlot.Step abs .stop abs' ∧ Sim unicode scope { sys with phase := .idle } abs' :=
  ⟨{ abs with phase := .idle }, .stop, h.holds, h.output, rfl⟩

theorem Sim.recover (h : Sim unicode scope sys abs) (hphase : sys.phase = .idle) :
    (recoverStep unicode scope sys).1.Sensible scope ∧
      ∃ abs', TwoSlot.Step abs (recoverStep unicode scope sys).1.toSlots abs' ∧
        Sim unicode scope (recoverStep unicode scope sys).2 abs' := by
  obtain ⟨slots, output, phase⟩ := abs
  obtain rfl : output = sys.output := h.output
  obtain rfl : phase = .idle := h.phase.trans hphase
  by_cases hscope : safeCheckpointScope scope = true
  · rw [recoverStep, h.holds.recover hscope]
    exact ⟨trivial, _, .recover, h.holds.settle _, rfl, rfl⟩
  · have herror : recoverDecision unicode sys.table scope sys.output sys.output.isSome =
        .error "decision_scope" := by
      simp [recoverDecision, hscope]
    rw [recoverStep, herror]
    exact ⟨eq_false_of_ne_true hscope, _, .stop, h.holds, rfl, hphase.symm⟩

theorem Sim.stage {now : Time} (h : Sim unicode value.scope sys abs)
    (hphase : sys.phase = .planning)
    (hvalue : ∀ r, (stageStep sys value receipt now).1 = .stage value r →
      WellTyped unicode value ∧ durable value = true) :
    (stageStep sys value receipt now).1.Sensible value.scope ∧
      ∃ abs', TwoSlot.Step abs (stageStep sys value receipt now).1.toSlots abs' ∧
        Sim unicode value.scope (stageStep sys value receipt now).2 abs' := by
  cases hstage : stageDecision sys.table value (some receipt) now with
  | error code =>
    rw [stageStep, hstage]
    exact ⟨trivial, h.stop⟩
  | ok table =>
    rw [stageStep, hstage] at hvalue
    obtain ⟨htyped, hdurable⟩ := hvalue receipt rfl
    obtain ⟨slots, output, phase⟩ := abs
    obtain rfl : phase = .planning := h.phase.trans hphase
    rw [stageStep, hstage]
    exact ⟨(stageDecision_eq_ok_iff.mp hstage).1.scope_safe, _, .stage,
      h.holds.stage htyped hdurable hstage, h.output, rfl⟩

theorem Sim.readBack (h : Sim unicode scope sys abs) (hphase : sys.phase = .reading receipt) :
    (readBackStep sys receipt).1.Sensible scope ∧
      ∃ abs', TwoSlot.Step abs (readBackStep sys receipt).1.toSlots abs' ∧
        Sim unicode scope (readBackStep sys receipt).2 abs' := by
  unfold readBackStep
  split_ifs with hreceipt
  · obtain ⟨slots, output, phase⟩ := abs
    obtain rfl : phase = .reading receipt := h.phase.trans hphase
    have houtput : output = some receipt := by
      rw [Bool.and_eq_true] at hreceipt
      obtain ⟨current, hcurrent⟩ := Option.isSome_iff_exists.mp hreceipt.1
      rw [hcurrent, receiptEqual_iff] at hreceipt
      exact h.output.trans (hcurrent.trans hreceipt.2)
    subst houtput
    exact ⟨trivial, _, .readBack, h.holds, h.output, rfl⟩
  · exact ⟨trivial, h.stop⟩

theorem Sim.commit (h : Sim unicode scope sys abs) (hphase : sys.phase = .committing receipt) :
    (commitStep unicode scope sys receipt).1.Sensible scope ∧
      ∃ abs', TwoSlot.Step abs (commitStep unicode scope sys receipt).1.toSlots abs' ∧
        Sim unicode scope (commitStep unicode scope sys receipt).2 abs' := by
  cases hcommit : commitDecision unicode sys.table scope (some receipt) with
  | error code =>
    rw [commitStep, hcommit]
    exact ⟨trivial, h.stop⟩
  | ok table =>
    obtain ⟨slots', hslots, hholds⟩ := h.holds.commit hcommit
    obtain ⟨slots, output, phase⟩ := abs
    obtain rfl : phase = .committing receipt := h.phase.trans hphase
    rw [commitStep, hcommit]
    exact ⟨trivial, _, .commit hslots, hholds, h.output, rfl⟩

theorem Sim.publish {written reported : Bool} (h : Sim unicode scope sys abs)
    (hphase : sys.phase = .publishing receipt) :
    ∃ abs', TwoSlot.Step abs (.publish receipt written reported) abs' ∧
      Sim unicode scope
        { sys with
          output := if written then some receipt else sys.output
          phase := if reported then .reading receipt else .idle } abs' := by
  obtain ⟨slots, output, phase⟩ := abs
  obtain rfl : output = sys.output := h.output
  obtain rfl : phase = .publishing receipt := h.phase.trans hphase
  exact ⟨_, .publish, h.holds, rfl, rfl⟩

/-- **A step of the process is a step of the slots**, as long as what it stages is durable. -/
theorem Sim.step {sys' : Sys} {action : Action} (h : Sim unicode scope sys abs)
    (hstep : step unicode scope sys action = some (event, sys'))
    (hstaged : ∀ value receipt, event = .stage value receipt →
      WellTyped unicode value ∧ durable value = true) :
    event.Sensible scope ∧
      ∃ abs', TwoSlot.Step abs event.toSlots abs' ∧ Sim unicode scope sys' abs' := by
  unfold Checkpoint.step at hstep
  split at hstep
  · next hphase =>
      obtain ⟨rfl, rfl⟩ := Prod.mk.inj (Option.some.inj hstep)
      exact h.recover hphase
  · next value receipt now hphase =>
      split_ifs at hstep with hscope
      subst hscope
      obtain ⟨rfl, rfl⟩ := Prod.mk.inj (Option.some.inj hstep)
      exact h.stage hphase fun r hr => hstaged value r hr
  · next hphase =>
      obtain ⟨rfl, rfl⟩ := Prod.mk.inj (Option.some.inj hstep)
      exact ⟨trivial, h.publish hphase⟩
  · next hphase =>
      obtain ⟨rfl, rfl⟩ := Prod.mk.inj (Option.some.inj hstep)
      exact h.readBack hphase
  · next hphase =>
      obtain ⟨rfl, rfl⟩ := Prod.mk.inj (Option.some.inj hstep)
      exact h.commit hphase
  · obtain ⟨rfl, rfl⟩ := Prod.mk.inj (Option.some.inj hstep)
    exact ⟨trivial, h.stop⟩
  · cases hstep

/-- The run of the slots that a run of the process follows. -/
theorem Sim.run {start : TwoSlot.Sys State Receipt} {pre : List (TwoSlot.Event State Receipt)}
    (hpre : TwoSlot.Run start pre abs) (h : Sim unicode scope sys abs)
    (hrun : run unicode scope sys actions = some (trace, last))
    (hstaged : ∀ value receipt, .stage value receipt ∈ trace →
      WellTyped unicode value ∧ durable value = true) :
    (∀ event ∈ trace, event.Sensible scope) ∧
      ∃ abs', TwoSlot.Run start (pre ++ trace.map Event.toSlots) abs' := by
  induction actions generalizing sys abs pre trace with
  | nil =>
    obtain ⟨rfl, rfl⟩ := Prod.mk.inj (Option.some.inj hrun)
    exact ⟨by simp, abs, by simpa using hpre⟩
  | cons action rest ih =>
    simp only [Checkpoint.run, bind, Option.bind_eq_some_iff] at hrun
    obtain ⟨⟨event, sys'⟩, hstep, ⟨trace', last'⟩, hrest, hresult⟩ := hrun
    obtain ⟨rfl, rfl⟩ := Prod.mk.inj (Option.some.inj hresult)
    obtain ⟨hsensible, abs', habs, hsim⟩ := h.step hstep fun value receipt hevent =>
      hstaged value receipt (by simp [hevent])
    obtain ⟨hall, last, hlast⟩ := ih (hpre.snoc habs) hsim hrest fun value receipt hmem =>
      hstaged value receipt (by simp [hmem])
    exact ⟨by simpa using ⟨hsensible, hall⟩, last, by simpa using hlast⟩

end Simulation

/-! ## The main result -/

/-- Crash safety carries over from the slots to a trace without senseless events. -/
theorem CrashSafe.of_slots (hsensible : ∀ event ∈ trace, event.Sensible scope)
    (h : TwoSlot.CrashSafe (trace.map Event.toSlots)) : CrashSafe trace := by
  -- where something is staged, every recovery succeeds
  have hrecover : ∀ value receipt current result, .stage value receipt ∈ trace →
      .recover current result ∈ trace → ∃ answer, result = .ok answer := by
    intro value receipt current result hstage hrecover
    cases result with
    | ok answer => exact ⟨answer, rfl⟩
    | error code =>
      have hrefused : safeCheckpointScope scope = false := hsensible _ hrecover
      have hsafe : safeCheckpointScope scope = true := hsensible _ hstage
      rw [hrefused] at hsafe
      cases hsafe
  have hquiet : ∀ {mid : List Event}, (∀ e ∈ mid, e.Quiet) →
      ∀ e ∈ mid.map Event.toSlots, e.Quiet := by
    intro mid hmid e he
    obtain ⟨event, hevent, rfl⟩ := List.mem_map.mp he
    exact (hmid event hevent).toSlots
  constructor
  · rintro pre post current value rfl
    obtain ⟨receipt, hcurrent, hmem⟩ := h.sound (by simp [Event.toSlots]; rfl)
    obtain ⟨event, hevent, hstage⟩ := List.mem_map.mp hmem
    rw [Event.toSlots_eq_stage hstage] at hevent
    exact ⟨receipt, hcurrent, hevent⟩
  · rintro pre mid post value receipt result rfl hmid
    obtain ⟨answer, rfl⟩ := hrecover value receipt (some receipt) result (by simp) (by simp)
    have hanswer := h.staged (by simp [Event.toSlots]; rfl) (hquiet hmid)
    rw [hanswer]
  · rintro pre mid mid' post current result result' value receipt rfl hmid hmid' hne
    obtain ⟨answer, rfl⟩ := hrecover value receipt current result (by simp) (by simp)
    obtain ⟨answer', rfl⟩ := hrecover value receipt current result' (by simp) (by simp)
    have hanswer := h.unchanged (by simp [Event.toSlots]; rfl) (hquiet hmid) (hquiet hmid') hne
    rw [hanswer]

/-- Every run that stages durable decisions only is crash safe. -/
theorem crashSafe_of_durable {start : Sys} (hfresh : start.Fresh scope)
    (hrun : run unicode scope start actions = some (trace, last))
    (hstaged : ∀ value receipt, .stage value receipt ∈ trace →
      WellTyped unicode value ∧ durable value = true)
    : CrashSafe trace := by
  obtain ⟨hpending, hcommitted, hphase⟩ := hfresh
  have hsim : Sim unicode scope start ⟨⟨none, none⟩, start.output, .idle⟩ :=
    ⟨⟨loadCheckpoint_none hpending, loadCheckpoint_none hcommitted⟩, rfl, hphase.symm⟩
  obtain ⟨hsensible, abs, habs⟩ := hsim.run .nil hrun hstaged
  exact .of_slots hsensible (habs.crashSafe ⟨rfl, rfl⟩)

/-- A step that stages a decision is a successful `StageDecision`. -/
theorem stageDecision_of_step {sys sys' : Sys} {action : Action}
    (h : step unicode scope sys action = some (.stage value receipt, sys')) :
    value.scope = scope ∧
      ∃ now, stageDecision sys.table value (some receipt) now = .ok sys'.table := by
  unfold step at h
  split at h
  · unfold recoverStep at h
    split at h <;> simp at h
  · next value' receipt' now _ =>
      split_ifs at h with hscope
      unfold stageStep at h
      split at h
      · simp at h
      · next table htable =>
          obtain ⟨hevent, rfl⟩ := Prod.mk.inj (Option.some.inj h)
          obtain ⟨rfl, rfl⟩ := Event.stage.inj hevent
          exact ⟨hscope, now, htable⟩
  · simp at h
  · unfold readBackStep at h
    split at h <;> simp at h
  · unfold commitStep at h
    split at h <;> simp at h
  · simp at h
  · cases h

/-- What is staged in a run was accepted by `StageDecision`. -/
theorem stageDecision_of_mem {start : Sys}
    (hrun : run unicode scope start actions = some (trace, last))
    (hmem : .stage value receipt ∈ trace) :
    value.scope = scope ∧
      ∃ table table' now, stageDecision table value (some receipt) now = .ok table' := by
  induction actions generalizing start trace with
  | nil =>
    obtain ⟨rfl, -⟩ := Prod.mk.inj (Option.some.inj hrun)
    cases hmem
  | cons action rest ih =>
    simp only [run, bind, Option.bind_eq_some_iff] at hrun
    obtain ⟨⟨event, sys'⟩, hstep, ⟨trace', last'⟩, hrest, hresult⟩ := hrun
    obtain ⟨rfl, rfl⟩ := Prod.mk.inj (Option.some.inj hresult)
    rcases List.mem_cons.mp hmem with hevent | hmem
    · subst hevent
      obtain ⟨hscope, now, hstage⟩ := stageDecision_of_step hstep
      exact ⟨hscope, _, _, now, hstage⟩
    · exact ih hrest hmem

/-- A process without rows, and without output. -/
def Sys.initial : Sys := ⟨fun _ _ => none, none, .idle⟩

/-- Staging a decision, crashing after its write and recovering. -/
def crashRun (value : State) (receipt : Receipt) : List Action :=
  [.recover, .stage value receipt 1, .publish true false, .recover]

/-- The trace of such a run. -/
theorem run_crashRun {table : Table}
    (h : stageDecision Sys.initial.table value (some receipt) 1 = .ok table) :
    ∃ last, run unicode value.scope .initial (crashRun value receipt) =
      some ([.recover none (.ok none), .stage value receipt, .publish receipt true false,
        .recover (some receipt)
          ((recoverDecision unicode table value.scope (some receipt) true).map Prod.fst)],
        last) := by
  have hscope : safeCheckpointScope value.scope = true :=
    (stageDecision_eq_ok_iff.mp h).1.scope_safe
  have hfirst : recoverStep unicode value.scope .initial =
      (.recover none (.ok none), ⟨Sys.initial.table, none, .planning⟩) := by
    simp [recoverStep, recoverDecision, hscope, Sys.initial, loadCheckpoint, settleTable, bind,
      Except.bind, pure, Except.pure]
  have hstage : stageStep ⟨Sys.initial.table, none, .planning⟩ value receipt 1 =
      (.stage value receipt, ⟨table, none, .publishing receipt⟩) := by
    rw [stageStep, h]
  have hlast : (recoverStep unicode value.scope ⟨table, some receipt, .idle⟩).1 =
      .recover (some receipt)
        ((recoverDecision unicode table value.scope (some receipt) true).map Prod.fst) :=
    recoverStep_fst _ _ _
  refine ⟨(recoverStep unicode value.scope ⟨table, some receipt, .idle⟩).2, ?_⟩
  have hphase : Sys.initial.phase = .idle := rfl
  rw [← hlast]
  simp [run, crashRun, step, hfirst, hstage, hphase]

/-- In a trace of this shape the recovery has to return the decision. -/
theorem CrashSafe.of_crashRun {first : Event} {result : Except String (Option State)}
    (h : CrashSafe [first, .stage value receipt, .publish receipt true false,
      .recover (some receipt) result])
    : result = .ok (some value) := by
  have htrace : [first, .stage value receipt, .publish receipt true false,
      .recover (some receipt) result] =
      [first] ++ .stage value receipt ::
        ([.publish receipt true false] ++ .recover (some receipt) result :: []) := rfl
  exact h.staged htrace (by simp [Event.Quiet])

/-- **The protocol is crash safe exactly for durable decisions.**  Whatever decisions and
receipts are allowed, every run that stages nothing else is crash safe if and only if every
one of them that `StageDecision` accepts is durable. -/
theorem crashSafe_iff (unicode : Unicode) (scope : Bytes) (allowed : State → Receipt → Prop) :
    (∀ start actions trace last, start.Fresh scope →
      run unicode scope start actions = some (trace, last) →
      (∀ value receipt, .stage value receipt ∈ trace →
        WellTyped unicode value ∧ allowed value receipt) → CrashSafe trace) ↔
    ∀ value receipt, value.scope = scope → WellTyped unicode value → allowed value receipt →
      (∃ table table' now, stageDecision table value (some receipt) now = .ok table') →
      durable value = true := by
  constructor
  · intro hsafe value receipt hscope htyped hallowed haccepted
    subst hscope
    obtain ⟨_, _, _, haccepted⟩ := haccepted
    obtain ⟨hvalid, -, hsize, -⟩ := stageDecision_eq_ok_iff.mp haccepted
    obtain ⟨table, hstage⟩ : ∃ table,
        stageDecision Sys.initial.table value (some receipt) 1 = .ok table :=
      ⟨_, stageDecision_eq_ok_iff.mpr ⟨hvalid, one_ne_zero, hsize, rfl⟩⟩
    obtain ⟨last, hrun⟩ : ∃ last, run unicode value.scope _ _ = some (_, last) :=
      run_crashRun hstage
    have hcrash := hsafe _ _ _ last ⟨rfl, rfl, rfl⟩ hrun (by simpa using ⟨htyped, hallowed⟩)
    rw [← recoverDecision_staged_iff htyped hstage]
    exact map_fst_eq_ok.mp hcrash.of_crashRun
  · intro hdurable start actions trace last hfresh hrun hstaged
    refine crashSafe_of_durable hfresh hrun fun value receipt hmem => ?_
    obtain ⟨htyped, hallowed⟩ := hstaged value receipt hmem
    obtain ⟨hscope, haccepted⟩ := stageDecision_of_mem hrun hmem
    exact ⟨htyped, hdurable value receipt hscope htyped hallowed haccepted⟩

end

namespace Sample

def receipt : Receipt :=
  ⟨⟨singBox1141, List.replicate 32 7, ascii "sing-box/1.14.1"⟩, by decide +kernel⟩

def id : ID :=
  ⟨ascii "ef1_" ++ (encodeDigits 5 base32Std Digest.zero.val).map lowerASCII⟩

/-- A connection of one endpoint, by the number of its revision. -/
def connection (i : Nat) : ConnectionRef := ⟨id, some ⟨bigEndian 32 i, length_bigEndian 32 i⟩⟩

/-- A second after the Unix epoch. -/
def now : Time := ofUnixNano 1000000000

/-- A decision with one member and the given number of cooldowns. -/
def crowded (cooldowns : Nat) : State :=
  { Selection.Sample.state now [⟨connection 0, now⟩] with
    cooldowns := (List.range cooldowns).map fun i => ⟨connection i, now⟩ }

theorem issued_id : id.Issued Endpoint.Sample.unicode := issued_of_digest (by decide) Digest.zero

theorem wellTyped_crowded (n : Nat) : WellTyped Endpoint.Sample.unicode (crowded n) where
  target := fun _ => (by decide +kernel : safeID Selection.Sample.context.target.id = true)
  vantage := fun _ => (by decide +kernel : safeID Selection.Sample.context.vantage = true)
  members := by
    intro member hmember _
    obtain rfl := List.mem_singleton.mp hmember
    exact issued_id
  cooldowns := by
    intro cooldown hcooldown _
    obtain ⟨i, -, rfl⟩ := List.mem_map.mp hcooldown
    exact issued_id

theorem validRef_connection (i : Nat) : ValidRef (connection i) := ⟨rfl, issued_id.string_ne⟩

theorem now_ne_zero : now ≠ 0 := by decide +kernel

theorem valid_crowded {n : Nat} (hn : n < 256 ^ 32) : (crowded n).Valid where
  scope_safe := (by decide +kernel : safeScope Selection.Sample.scope = true)
  context_ok := (by decide +kernel : Selection.Sample.context.check = .ok ())
  fingerprint := (by decide +kernel : Selection.Sample.digest 1 ≠ Digest.zero)
  evaluated := now_ne_zero
  members := by
    intro member hmember
    obtain rfl := List.mem_singleton.mp hmember
    exact ⟨now_ne_zero, validRef_connection 0⟩
  members_nodup := List.nodup_singleton _
  cooldowns := by
    intro cooldown hcooldown
    obtain ⟨i, -, rfl⟩ := List.mem_map.mp hcooldown
    exact ⟨now_ne_zero, rfl⟩
  cooldowns_nodup := by
    rw [crowded, List.map_map]
    refine List.Nodup.map_on ?_ List.nodup_range
    intro i hi j hj hkey
    have hconnection := refKey_inj (validRef_connection i) (validRef_connection j) hkey
    have hbytes := congrArg Subtype.val (Option.some.inj (ConnectionRef.mk.inj hconnection).2)
    exact bigEndian_inj ((List.mem_range.mp hi).trans hn) ((List.mem_range.mp hj).trans hn) hbytes

example : durable (crowded 2) = true := by decide +kernel

/-- The text of a cooldown. -/
theorem length_marshal_entry (i : Nat) :
    (Entry.marshal "until_ns" (entryOf (connection i) now)).length ≤ 220 := by
  have hrevision := Json.length_bytes_le (bigEndian 32 i)
  rw [length_bigEndian] at hrevision
  have hid : (Json.string id.string).length = 58 := by decide +kernel
  have hkeys : (Json.string (ascii "endpoint_id")).length = 13 ∧
      (Json.string (ascii "connection_revision")).length = 21 ∧
      (Json.string (ascii "until_ns")).length = 10 ∧
      (Json.number (unixNano now)).length = 10 := by decide +kernel
  have hlength := Json.length_object_le [("endpoint_id", Json.string id.string),
    ("connection_revision", Json.bytes (bigEndian 32 i)), ("until_ns", Json.number (unixNano now))]
  simp only [List.map_cons, List.map_nil, List.sum_cons, List.sum_nil] at hlength
  refine hlength.trans ?_
  omega

/-- The text of the cooldowns. -/
theorem length_marshal_cooldowns (n : Nat) :
    (marshalEntries "until_ns" (payloadOf (crowded n) receipt).cooldowns).length ≤ n * 221 + 4 := by
  unfold marshalEntries
  split_ifs
  · exact Nat.le_add_left 4 _
  set texts := (payloadOf (crowded n) receipt).cooldowns.map (Entry.marshal "until_ns")
    with htexts
  have hcount : texts.length = n := by simp [htexts, payloadOf, crowded]
  rw [← hcount]
  refine Json.length_array_le fun text htext => ?_
  obtain ⟨entry, hentry, rfl⟩ := List.mem_map.mp htext
  obtain ⟨cooldown, hcooldown, rfl⟩ := List.mem_map.mp hentry
  obtain ⟨i, -, rfl⟩ := List.mem_map.mp hcooldown
  exact length_marshal_entry i

/-- Ten thousand and one cooldowns fit into a payload. -/
theorem length_marshal_crowded :
    (payloadOf (crowded 10001) receipt).marshal.length ≤ maxPayload := by
  have hcooldowns := length_marshal_cooldowns 10001
  set payload := payloadOf (crowded 10001) receipt
  have hothers : (((payload.fields.take 9 ++ payload.fields.drop 10).map fun field =>
      (Json.string (ascii field.1)).length + field.2.length + 2).sum) ≤ 2000 := by
    decide +kernel
  have hsplit : payload.fields = payload.fields.take 9 ++
      ("cooldowns", marshalEntries "until_ns" payload.cooldowns) :: payload.fields.drop 10 := rfl
  have hkey : (Json.string (ascii "cooldowns")).length = 11 := by decide +kernel
  refine (Json.length_object_le _).trans ?_
  rw [hsplit, List.map_append, List.map_cons, List.sum_append, List.sum_cons]
  rw [List.map_append, List.sum_append] at hothers
  simp only [maxPayload]
  omega

/-- **A decision with too many cooldowns is accepted and cannot be recovered.**  It is
staged and written, and the process crashes; the recovery fails. -/
theorem crash_loses_crowded :
    WellTyped Endpoint.Sample.unicode (crowded 10001) ∧
      ∃ last, run Endpoint.Sample.unicode Selection.Sample.scope .initial
          (crashRun (crowded 10001) receipt) =
        some ([.recover none (.ok none), .stage (crowded 10001) receipt,
          .publish receipt true false,
          .recover (some receipt) (.error "decision_corrupt")], last) ∧
      ¬ CrashSafe [.recover none (.ok none), .stage (crowded 10001) receipt,
          .publish receipt true false,
          .recover (some receipt) (.error "decision_corrupt")] := by
  refine ⟨wellTyped_crowded _, ?_⟩
  obtain ⟨table, hstage⟩ : ∃ table,
      stageDecision Sys.initial.table (crowded 10001) (some receipt) 1 = .ok table :=
    ⟨_, stageDecision_eq_ok_iff.mpr
      ⟨valid_crowded (by norm_num), one_ne_zero, length_marshal_crowded, rfl⟩⟩
  have hreadable : readable (crowded 10001) = false := by
    have hcount : (crowded 10001).cooldowns.length = 10001 := by simp [crowded]
    simp [readable, hcount, maxEntries]
  obtain ⟨last, hrun⟩ : ∃ last, run Endpoint.Sample.unicode (crowded 10001).scope _ _ =
      some (_, last) := run_crashRun hstage
  rw [recoverDecision_staged (wellTyped_crowded _) hstage, hreadable] at hrun
  refine ⟨last, hrun, fun hsafe => ?_⟩
  cases hsafe.of_crashRun

end Sample

end Egressfox.Checkpoint
