import Egressfox.Checkpoint.Codec
import Egressfox.Lib.TwoSlot

/-!
# Decision checkpoints

The checkpoint table of `internal/state/sqlite.go`: `StageDecision`, `CommitDecision` and
`RecoverDecision`.  An operation runs in one transaction, so it returns a new table, or an
error and leaves the table as it was.

`Holds` reads the two rows of a scope as the slots of `Lib.TwoSlot`; it says that both can
be decoded.  The three operations are then those of the slots, and what decides whether a
staged row can be decoded is `durable`.
-/

namespace Egressfox.Checkpoint

open Lib Endpoint Observation Artifact Selection

/-! ## The table -/

inductive Slot where
  | committed
  | pending
deriving DecidableEq, Repr

/-- A row without its key. -/
structure Row where
  payload : Payload
  updatedAt : Int
deriving DecidableEq, Repr

/-- `selection_checkpoints`, by its primary key. -/
abbrev Table := Bytes → Slot → Option Row

/-- The table with the row under one key replaced or deleted. -/
def Table.set (table : Table) (scope : Bytes) (slot : Slot) (row : Option Row) : Table :=
  fun scope' slot' => if scope' = scope ∧ slot' = slot then row else table scope' slot'

/-- The two statements that replace the committed row of a scope by the pending one. -/
def Table.promote (table : Table) (scope : Bytes) : Table :=
  (table.set scope .committed (table scope .pending)).set scope .pending none

/-- `StageDecision`. -/
def stageDecision (table : Table) (value : State) (receipt : Option Receipt) (now : Time) :
    Except String Table :=
  if value.validate ≠ .ok () ∨ now = 0 then .error "decision_state"
  else
    match encodeCheckpoint value receipt with
    | none => .error "decision_encode"
    | some payload =>
      if maxPayload < payload.marshal.length then .error "decision_encode"
      else .ok (table.set value.scope .pending (some ⟨payload, unixNano now⟩))

/-- `loadCheckpoint`. -/
def loadCheckpoint (unicode : Unicode) (table : Table) (scope : Bytes) (slot : Slot) :
    Except String (Option (State × Receipt)) :=
  match table scope slot with
  | none => .ok none
  | some row =>
    match decodeCheckpoint unicode row.payload with
    | none => .error "decision_corrupt"
    | some stored => .ok (some stored)

/-- `CommitDecision`. -/
def commitDecision (unicode : Unicode) (table : Table) (scope : Bytes) (current : Option Receipt) :
    Except String Table :=
  match loadCheckpoint unicode table scope .pending with
  | .ok (some (_, receipt)) =>
    if receiptEqual (some receipt) current then .ok (table.promote scope)
    else .error "decision_commit_mismatch"
  | _ => .error "decision_commit_mismatch"

/-- `safeCheckpointScope`. -/
def safeCheckpointScope (scope : Bytes) : Bool := safeText scope

/-- The table after a pending row has been promoted or discarded. -/
def settleTable (table : Table) (scope : Bytes) (pending : Option (State × Receipt))
    (current : Option Receipt) (currentExists : Bool) : Table :=
  match pending with
  | none => table
  | some (_, receipt) =>
    if currentExists && receiptEqual (some receipt) current then table.promote scope
    else table.set scope .pending none

/-- `RecoverDecision`, with the table it leaves. -/
def recoverDecision (unicode : Unicode) (table : Table) (scope : Bytes) (current : Option Receipt)
    (currentExists : Bool) : Except String (Option State × Table) :=
  if !safeCheckpointScope scope then .error "decision_scope"
  else do
    let pending ← loadCheckpoint unicode table scope .pending
    let table := settleTable table scope pending current currentExists
    let committed ← loadCheckpoint unicode table scope .committed
    match committed with
    | some (state, receipt) =>
      if currentExists && receiptEqual (some receipt) current then return (some state, table)
      else return (none, table)
    | none => return (none, table)

/-! ## The rows of one scope -/

@[simp] theorem Table.set_same (table : Table) (scope : Bytes) (slot : Slot) (row : Option Row) :
    table.set scope slot row scope slot = row := by
  simp [Table.set]

variable {slot : Slot} {unicode : Unicode} {table table' : Table} {receipt : Receipt}
  {value : State} {now : Time}

theorem Table.set_other_slot (table : Table) (scope : Bytes) {slot' : Slot} (row : Option Row)
    (h : slot' ≠ slot) : table.set scope slot row scope slot' = table scope slot' := by
  simp [Table.set, h]

@[simp] theorem Table.promote_pending (table : Table) (scope : Bytes) :
    table.promote scope scope .pending = none := by
  simp [Table.promote]

@[simp] theorem Table.promote_committed (table : Table) (scope : Bytes) :
    table.promote scope scope .committed = table scope .pending := by
  rw [Table.promote, Table.set_other_slot _ _ _ (by decide), Table.set_same]

/-- What is loaded depends on the row alone. -/
theorem loadCheckpoint_congr {scope : Bytes} {slot' : Slot}
    (h : table scope slot = table' scope slot') :
    loadCheckpoint unicode table scope slot = loadCheckpoint unicode table' scope slot' := by
  rw [loadCheckpoint, loadCheckpoint, h]

theorem loadCheckpoint_none {scope : Bytes} (h : table scope slot = none) :
    loadCheckpoint unicode table scope slot = .ok none := by
  rw [loadCheckpoint, h]

theorem receiptEqual_iff {current : Option Receipt} :
    receiptEqual (some receipt) current = true ↔ some receipt = current := by
  cases current <;> simp [receiptEqual]

/-- The rows of a scope can be decoded, to these slots. -/
structure Holds (unicode : Unicode) (scope : Bytes) (table : Table)
    (slots : TwoSlot.Slots State Receipt) : Prop where
  pending : loadCheckpoint unicode table scope .pending = .ok slots.pending
  committed : loadCheckpoint unicode table scope .committed = .ok slots.committed

section Operations

variable {unicode : Unicode} {scope : Bytes} {table : Table} {slots : TwoSlot.Slots State Receipt}

section

variable (h : Holds unicode scope table slots)
include h

theorem Holds.promote {pair : State × Receipt} (hpending : slots.pending = some pair) :
    Holds unicode scope (table.promote scope) ⟨none, some pair⟩ where
  pending := loadCheckpoint_none (Table.promote_pending table scope)
  committed := by
    rw [loadCheckpoint_congr (Table.promote_committed table scope), h.pending, hpending]

theorem Holds.discard :
    Holds unicode scope (table.set scope .pending none) ⟨none, slots.committed⟩ where
  pending := loadCheckpoint_none (Table.set_same _ _ _ _)
  committed := by
    rw [← h.committed]
    exact loadCheckpoint_congr (Table.set_other_slot _ _ _ (by decide))

/-- Settling the rows settles the slots. -/
theorem Holds.settle (current : Option Receipt) :
    Holds unicode scope (settleTable table scope slots.pending current current.isSome)
      (slots.settle current) := by
  unfold settleTable TwoSlot.Slots.settle
  cases hpending : slots.pending with
  | none => exact h
  | some pair =>
    by_cases hreceipt : some pair.2 = current
    · subst hreceipt
      simpa [receiptEqual] using h.promote hpending
    · have hne : receiptEqual (some pair.2) current = false := by
        rw [← Bool.not_eq_true, receiptEqual_iff]
        exact hreceipt
      simpa [hne, hreceipt] using h.discard

/-- **`RecoverDecision` on rows that can be decoded.** -/
theorem Holds.recover (hscope : safeCheckpointScope scope = true) (current : Option Receipt) :
    recoverDecision unicode table scope current current.isSome =
      .ok (TwoSlot.answer (slots.settle current).committed current,
        settleTable table scope slots.pending current current.isSome) := by
  have hsettled := (h.settle current).committed
  rw [recoverDecision, h.pending, hscope]
  simp only [Bool.not_true, Bool.false_eq_true, if_false, bind, Except.bind, hsettled]
  cases hcommitted : (slots.settle current).committed with
  | none => rfl
  | some pair =>
    dsimp only
    by_cases hreceipt : some pair.2 = current
    · subst hreceipt
      simp [TwoSlot.answer, receiptEqual, pure, Except.pure]
    · have hne : receiptEqual (some pair.2) current = false := by
        rw [← Bool.not_eq_true, receiptEqual_iff]
        exact hreceipt
      simp [TwoSlot.answer, hne, hreceipt, pure, Except.pure]

/-- **`CommitDecision` on rows that can be decoded.** -/
theorem Holds.commit (hcommit : commitDecision unicode table scope (some receipt) = .ok table') :
    ∃ slots', slots.commit receipt = some slots' ∧ Holds unicode scope table' slots' := by
  rw [commitDecision, h.pending] at hcommit
  cases hpending : slots.pending with
  | none => simp [hpending] at hcommit
  | some pair =>
    obtain ⟨s, r⟩ := pair
    simp only [hpending] at hcommit
    split_ifs at hcommit with hreceipt
    obtain rfl := Option.some.inj (receiptEqual_iff.mp hreceipt)
    obtain rfl := Except.ok.inj hcommit
    exact ⟨⟨none, some (s, r)⟩, by simp [TwoSlot.Slots.commit, hpending], h.promote hpending⟩

end

end Operations

/-! ## Staging -/

/-- What `StageDecision` accepts, and what it then stores. -/
theorem stageDecision_eq_ok_iff :
    stageDecision table value (some receipt) now = .ok table' ↔
      value.Valid ∧ now ≠ 0 ∧ (payloadOf value receipt).marshal.length ≤ maxPayload ∧
        table' = table.set value.scope .pending (some ⟨payloadOf value receipt, unixNano now⟩) := by
  unfold stageDecision
  by_cases hvalid : value.Valid
  · have hvalidate := State.validate_eq_ok_iff.mpr hvalid
    rw [encodeCheckpoint_eq hvalid]
    by_cases hnow : now = 0
    · simp [hnow]
    · by_cases hsize : maxPayload < (payloadOf value receipt).marshal.length
      · simp [hvalidate, hnow, hsize]
      · simp [hvalid, hvalidate, hnow, hsize, not_lt.mp hsize, eq_comm]
  · have hvalidate : value.validate ≠ .ok () := fun h => hvalid (State.validate_eq_ok_iff.mp h)
    simp [hvalid, hvalidate]

/-- What is loaded after staging. -/
theorem loadCheckpoint_staged (htyped : WellTyped unicode value)
    (h : stageDecision table value (some receipt) now = .ok table') :
    loadCheckpoint unicode table' value.scope .pending =
      if readable value then .ok (some (roundedState value, receipt))
      else .error "decision_corrupt" := by
  obtain ⟨hvalid, -, hsize, rfl⟩ := stageDecision_eq_ok_iff.mp h
  rw [loadCheckpoint, Table.set_same]
  dsimp only
  rw [decodeCheckpoint_payloadOf hvalid htyped hsize]
  split_ifs <;> rfl

theorem Holds.stage {slots : TwoSlot.Slots State Receipt}
    (h : Holds unicode value.scope table slots) (htyped : WellTyped unicode value)
    (hdurable : durable value = true)
    (hstage : stageDecision table value (some receipt) now = .ok table') :
    Holds unicode value.scope table' (slots.stage value receipt) where
  pending := by
    obtain ⟨hreadable, hrounded⟩ := durable_iff.mp hdurable
    rw [loadCheckpoint_staged htyped hstage, if_pos hreadable, hrounded]
    rfl
  committed := by
    obtain ⟨-, -, -, rfl⟩ := stageDecision_eq_ok_iff.mp hstage
    rw [loadCheckpoint_congr (Table.set_other_slot _ _ _ (by decide)), h.committed]
    rfl

/-- **What a recovery returns after staging**, once the output has been written. -/
theorem recoverDecision_staged (htyped : WellTyped unicode value)
    (h : stageDecision table value (some receipt) now = .ok table') :
    recoverDecision unicode table' value.scope (some receipt) true =
      if readable value then .ok (some (roundedState value), table'.promote value.scope)
      else .error "decision_corrupt" := by
  have hscope : safeCheckpointScope value.scope = true :=
    (stageDecision_eq_ok_iff.mp h).1.scope_safe
  have hload := loadCheckpoint_staged htyped h
  have hpromoted : loadCheckpoint unicode (table'.promote value.scope) value.scope .committed = _ :=
    loadCheckpoint_congr (Table.promote_committed table' value.scope)
  by_cases hreadable : readable value = true
  · rw [if_pos hreadable] at hload ⊢
    simp [recoverDecision, hscope, hload, settleTable, receiptEqual, bind, Except.bind, hpromoted,
      pure, Except.pure]
  · rw [if_neg hreadable] at hload ⊢
    simp [recoverDecision, hscope, hload, bind, Except.bind]

/-- After staging and writing, the decision is recovered exactly if it is durable. -/
theorem recoverDecision_staged_iff (htyped : WellTyped unicode value)
    (h : stageDecision table value (some receipt) now = .ok table') :
    (∃ after, recoverDecision unicode table' value.scope (some receipt) true =
      .ok (some value, after)) ↔ durable value = true := by
  rw [recoverDecision_staged htyped h, durable_iff]
  split_ifs with hreadable
  · constructor
    · rintro ⟨after, hafter⟩
      obtain ⟨hstate, -⟩ := Prod.mk.inj (Except.ok.inj hafter)
      exact ⟨hreadable, Option.some.inj hstate⟩
    · rintro ⟨-, hstate⟩
      rw [hstate]
      exact ⟨_, rfl⟩
  · simp [hreadable]

end Egressfox.Checkpoint
