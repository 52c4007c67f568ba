import Egressfox.Checkpoint.Protocol

/-!
# Staged decisions

`StageDecision` accepts a state by `State.Validate` and the length of its payload; the decoder
that `CommitDecision` and `RecoverDecision` use has bounds of its own.  What is staged can be read
back exactly if it is within them (`recoverable_iff`), whatever else the table holds.
-/

namespace Egressfox.Checkpoint

open Lib Endpoint Observation Artifact Selection

/-- The staged row is read back as the decision it was made of, `CommitDecision` accepts its
receipt, and `RecoverDecision` does not find it corrupt, whichever output is published. -/
structure Recoverable (unicode : Unicode) (table : Table) (value : State) (receipt : Receipt) :
    Prop where
  decoded : ∃ row, table value.scope .pending = some row ∧
    decodeCheckpoint unicode row.payload = some (value, receipt)
  commits : ∃ after, commitDecision unicode table value.scope (some receipt) = .ok after
  recovers : (loadCheckpoint unicode table value.scope .committed).isOk = true →
    ∀ current : Option Receipt,
      (recoverDecision unicode table value.scope current current.isSome).isOk = true

section

variable {unicode : Unicode} {table table' : Table} {value : State} {receipt : Receipt} {now : Time}

theorem recoverable_of_readable (htyped : WellTyped unicode value)
    (htimes : roundedState value = value) (hreadable : readable value = true)
    (h : stageDecision table value (some receipt) now = .ok table') :
    Recoverable unicode table' value receipt := by
  have hload : loadCheckpoint unicode table' value.scope .pending =
      .ok (some (value, receipt)) := by
    rw [loadCheckpoint_staged htyped h, if_pos hreadable, htimes]
  have hscope : safeCheckpointScope value.scope = true :=
    (stageDecision_eq_ok_iff.mp h).1.scope_safe
  refine ⟨?_, ?_, ?_⟩
  · obtain ⟨hvalid, -, hsize, rfl⟩ := stageDecision_eq_ok_iff.mp h
    refine ⟨_, Table.set_same _ _ _ _, ?_⟩
    rw [decodeCheckpoint_payloadOf hvalid htyped hsize, if_pos hreadable, htimes]
  · refine ⟨table'.promote value.scope, ?_⟩
    rw [commitDecision, hload]
    exact if_pos (receiptEqual_iff.mpr rfl)
  · intro hcommitted current
    -- the two rows together are the slots of the abstract protocol
    cases hload' : loadCheckpoint unicode table' value.scope .committed with
    | error code =>
      rw [hload'] at hcommitted
      cases hcommitted
    | ok committed =>
      have hholds : Holds unicode value.scope table' ⟨some (value, receipt), committed⟩ :=
        ⟨hload, hload'⟩
      rw [hholds.recover hscope current]
      rfl

/-- **What is staged can be recovered exactly if the decoder can read it.** -/
theorem recoverable_iff (htyped : WellTyped unicode value) (htimes : roundedState value = value)
    (h : stageDecision table value (some receipt) now = .ok table') :
    Recoverable unicode table' value receipt ↔ readable value = true := by
  constructor
  · rintro ⟨⟨row, hrow, hdecode⟩, -, -⟩
    obtain ⟨hvalid, -, hsize, rfl⟩ := stageDecision_eq_ok_iff.mp h
    rw [Table.set_same] at hrow
    obtain rfl := Option.some.inj hrow
    by_contra hreadable
    rw [decodeCheckpoint_payloadOf hvalid htyped hsize, if_neg hreadable] at hdecode
    cases hdecode
  · exact fun hreadable => recoverable_of_readable htyped htimes hreadable h

end

namespace Sample

theorem rounded_now : rounded now = now := by decide +kernel

theorem roundedState_crowded (n : Nat) : roundedState (crowded n) = crowded n := by
  simp [roundedState, crowded, Selection.Sample.state, rounded_now, Function.comp_def]

theorem stage_crowded {n : Nat} (hn : n < 256 ^ 32)
    (hsize : (payloadOf (crowded n) receipt).marshal.length ≤ maxPayload) :
    stageDecision Sys.initial.table (crowded n) (some receipt) 1 =
      .ok (Sys.initial.table.set (crowded n).scope .pending
        (some ⟨payloadOf (crowded n) receipt, unixNano 1⟩)) :=
  stageDecision_eq_ok_iff.mpr ⟨valid_crowded hn, one_ne_zero, hsize, rfl⟩

/-- A decision with a single cooldown is staged, and can be recovered. -/
theorem recoverable_iff_single :
    ∃ table, stageDecision Sys.initial.table (crowded 1) (some receipt) 1 = .ok table ∧
      (Recoverable Endpoint.Sample.unicode table (crowded 1) receipt ↔
        readable (crowded 1) = true) ∧
      readable (crowded 1) = true := by
  have hsize : (payloadOf (crowded 1) receipt).marshal.length ≤ maxPayload := by decide +kernel
  have hstage := stage_crowded (by norm_num) hsize
  exact ⟨_, hstage, recoverable_iff (wellTyped_crowded 1) (roundedState_crowded 1) hstage,
    by decide +kernel⟩

/-- A decision with ten thousand and one cooldowns is staged, and its row is corrupt. -/
theorem staged_unreadable :
    WellTyped Endpoint.Sample.unicode (crowded 10001) ∧
      roundedState (crowded 10001) = crowded 10001 ∧
      ∃ table row, stageDecision Sys.initial.table (crowded 10001) (some receipt) 1 = .ok table ∧
        table (crowded 10001).scope .pending = some row ∧
        decodeCheckpoint Endpoint.Sample.unicode row.payload = none ∧
        (∃ code, commitDecision Endpoint.Sample.unicode table (crowded 10001).scope
          (some receipt) = .error code) ∧
        recoverDecision Endpoint.Sample.unicode table (crowded 10001).scope (some receipt) true =
          .error "decision_corrupt" := by
  have hvalid : (crowded 10001).Valid := valid_crowded (by norm_num)
  have hunreadable : ¬readable (crowded 10001) = true := by
    have hcount : (crowded 10001).cooldowns.length = 10001 := by simp [crowded]
    simp [readable, hcount, maxEntries]
  have hstage := stage_crowded (by norm_num) length_marshal_crowded
  refine ⟨wellTyped_crowded _, roundedState_crowded _, _, _, hstage, Table.set_same _ _ _ _,
    ?_, ?_, ?_⟩
  · rw [decodeCheckpoint_payloadOf hvalid (wellTyped_crowded _) length_marshal_crowded,
      if_neg hunreadable]
  · refine ⟨"decision_commit_mismatch", ?_⟩
    rw [commitDecision, loadCheckpoint_staged (wellTyped_crowded _) hstage, if_neg hunreadable]
  · rw [recoverDecision_staged (wellTyped_crowded _) hstage, if_neg hunreadable]

end Sample

end Egressfox.Checkpoint
