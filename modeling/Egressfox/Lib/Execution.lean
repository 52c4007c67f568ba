import Mathlib

/-!
# Runs of a machine

A machine makes a step from a state when an action is given to it, and some actions are not
possible in some states.  A run records for each step the state it starts from and the action.

Besides the usual rule for invariants there is one for a property that steps may break: if from
every state with the property exactly the steps that pass a test lead to states with the
property, then it holds throughout a run exactly if all steps of the run pass the test
(`Execution.throughout_iff`).
-/

namespace Egressfox.Lib

variable {σ α : Type}

/-- A run from one state to another, with the states and actions of its steps. -/
inductive Execution (step : σ → α → Option σ) : σ → List (σ × α) → σ → Prop where
  | nil (s : σ) : Execution step s [] s
  | cons {s t u : σ} {a : α} {trace : List (σ × α)} :
      step s a = some t → Execution step t trace u → Execution step s ((s, a) :: trace) u

namespace Execution

variable {step : σ → α → Option σ} {s t u : σ} {trace trace' : List (σ × α)}

/-- Actions that are possible one after the other make a run. -/
theorem of_foldlM {actions : List α} (h : actions.foldlM step s = some t) :
    ∃ trace, Execution step s trace t ∧ trace.map Prod.snd = actions := by
  induction actions generalizing s with
  | nil =>
    obtain rfl := Option.some.inj h
    exact ⟨[], .nil s, rfl⟩
  | cons a actions ih =>
    rw [List.foldlM_cons] at h
    obtain ⟨u, hstep, h⟩ := Option.bind_eq_some_iff.mp h
    obtain ⟨trace, hrun, hactions⟩ := ih h
    exact ⟨(s, a) :: trace, .cons hstep hrun, by rw [List.map_cons, hactions]⟩

/-- What every step preserves holds at the end of a run. -/
theorem invariant {Inv : σ → Prop} (hstep : ∀ s a t, Inv s → step s a = some t → Inv t)
    (h : Execution step s trace t) (hs : Inv s) : Inv t := by
  induction h with
  | nil => exact hs
  | cons hst _ ih => exact ih (hstep _ _ _ hs hst)

/-- A measure that every step decreases bounds the length of a run. -/
theorem length_le {measure : σ → Nat} (hstep : ∀ s a t, step s a = some t → measure t < measure s)
    (h : Execution step s trace t) : trace.length + measure t ≤ measure s := by
  induction h with
  | nil => exact (Nat.zero_add _).le
  | cons hst _ ih =>
    have hlt := hstep _ _ _ hst
    rw [List.length_cons]
    omega

/-- A property of the states before the steps and of the last state. -/
def Throughout (Inv : σ → Prop) (trace : List (σ × α)) (final : σ) : Prop :=
  (∀ point ∈ trace, Inv point.1) ∧ Inv final

theorem Throughout.head {Inv : σ → Prop} (h : Execution step s trace t)
    (hall : Throughout Inv trace t) : Inv s := by
  cases h with
  | nil => exact hall.2
  | cons => exact hall.1 _ List.mem_cons_self

/-- **A property that certain steps break holds throughout the runs without such steps.** -/
theorem throughout_iff {Inv : σ → Prop} {Keeps : σ → α → Prop}
    (hstep : ∀ s a t, Inv s → step s a = some t → (Inv t ↔ Keeps s a))
    (h : Execution step s trace t) (hs : Inv s) :
    Throughout Inv trace t ↔ ∀ point ∈ trace, Keeps point.1 point.2 := by
  induction h with
  | nil => exact iff_of_true ⟨fun _ hp => (nomatch hp), hs⟩ fun _ hp => (nomatch hp)
  | @cons s t u a trace hst hrun ih =>
    constructor
    · rintro ⟨hall, hfinal⟩
      have htail : Throughout Inv trace u :=
        ⟨fun point hp => hall point (List.mem_cons_of_mem _ hp), hfinal⟩
      have ht : Inv t := htail.head hrun
      intro point hp
      rcases List.mem_cons.mp hp with rfl | hp
      · exact (hstep s a t hs hst).mp ht
      · exact (ih ht).mp htail point hp
    · intro hall
      have ht : Inv t := (hstep s a t hs hst).mpr (hall (s, a) List.mem_cons_self)
      obtain ⟨htrace, hfinal⟩ := (ih ht).mpr fun point hp => hall point (List.mem_cons_of_mem _ hp)
      refine ⟨fun point hp => ?_, hfinal⟩
      rcases List.mem_cons.mp hp with rfl | hp
      · exact hs
      · exact htrace point hp

end Execution

end Egressfox.Lib
