import Mathlib

/-!
# Computations that leave a trail

A computation on a state can be interrupted between any two of its steps.  So besides its
result, a run records its *trail*: the state after each step.  An interruption leaves the
initial state or one of the trail.

`Triple pre inv m post` is a Hoare triple with an invariant for the trail: started in a
state with `pre`, every state that `m` goes through has `inv`, and its result and last
state have `post`.  The rules below follow the structure of a program, so that a triple
about a sequence of steps is put together from triples about the steps.
-/

namespace Egressfox.Lib

/-- A finished run: its result, its last state and the states it went through. -/
structure Trail (σ α : Type) where
  value : α
  final : σ
  visited : List σ

/-- A computation on states `σ` with results `α`. -/
def TrailM (σ α : Type) := σ → Trail σ α

namespace TrailM

variable {σ α β : Type}

instance : Monad (TrailM σ) where
  pure a := fun s => ⟨a, s, []⟩
  bind m k := fun s =>
    let first := m s
    let rest := k first.value first.final
    ⟨rest.value, rest.final, first.visited ++ rest.visited⟩

/-- Look at the state. -/
def read (g : σ → α) : TrailM σ α := fun s => ⟨g s, s, []⟩

/-- One step. -/
def step (f : σ → α × σ) : TrailM σ α := fun s => ⟨(f s).1, (f s).2, [(f s).2]⟩

/-- Started in a state with `pre`, the computation goes through states with `inv` only, and
ends with `post`. -/
def Triple (pre inv : σ → Prop) (m : TrailM σ α) (post : α → σ → Prop) : Prop :=
  ∀ s, pre s → (∀ s' ∈ (m s).visited, inv s') ∧ post (m s).value (m s).final

namespace Triple

variable {pre pre' inv inv' mid : σ → Prop} {m : TrailM σ α} {k : α → TrailM σ β}
  {post post' : α → σ → Prop} {post₂ : β → σ → Prop}

theorem conseq (h : Triple pre' inv' m post') (hpre : ∀ s, pre s → pre' s)
    (hinv : ∀ s, inv' s → inv s) (hpost : ∀ a s, post' a s → post a s) :
    Triple pre inv m post := by
  intro s hs
  obtain ⟨hvisited, hfinal⟩ := h s (hpre s hs)
  exact ⟨fun s' hs' => hinv s' (hvisited s' hs'), hpost _ _ hfinal⟩

theorem weaken (h : Triple pre inv m post') (hpost : ∀ a s, post' a s → post a s) :
    Triple pre inv m post :=
  h.conseq (fun _ hs => hs) (fun _ hs => hs) hpost

/-- A fact that does not depend on the state can be assumed. -/
theorem assume {P : Prop} (h : P → Triple pre inv m post) :
    Triple (fun s => P ∧ pre s) inv m post :=
  fun s hs => h hs.1 s hs.2

theorem pure {a : α} (h : ∀ s, pre s → post a s) : Triple pre inv (Pure.pure a) post := by
  intro s hs
  refine ⟨?_, h s hs⟩
  intro s' hs'
  cases hs'

theorem bind {mid : α → σ → Prop} (hm : Triple pre inv m mid)
    (hk : ∀ a, Triple (mid a) inv (k a) post₂) : Triple pre inv (m >>= k) post₂ := by
  intro s hs
  obtain ⟨hvisited, hmid⟩ := hm s hs
  obtain ⟨hvisited', hfinal⟩ := hk _ _ hmid
  refine ⟨?_, hfinal⟩
  intro s' hs'
  rcases List.mem_append.mp hs' with hs' | hs'
  · exact hvisited s' hs'
  · exact hvisited' s' hs'

/-- If the result of the first part is known, only the continuation with it matters. -/
theorem bind_eq {a : α} (hm : Triple pre inv m fun a' s => a' = a ∧ mid s)
    (hk : Triple mid inv (k a) post₂) : Triple pre inv (m >>= k) post₂ := by
  refine hm.bind fun a' => assume ?_
  rintro rfl
  exact hk

/-- What is read is known from the precondition. -/
theorem read {g : σ → α} {a : α} (h : ∀ s, pre s → g s = a) :
    Triple pre inv (TrailM.read g) fun a' s => a' = a ∧ pre s := by
  intro s hs
  refine ⟨?_, h s hs, hs⟩
  intro s' hs'
  cases hs'

theorem step {f : σ → α × σ} (h : ∀ s, pre s → inv (f s).2 ∧ post (f s).1 (f s).2) :
    Triple pre inv (TrailM.step f) post := by
  intro s hs
  obtain ⟨hinv, hpost⟩ := h s hs
  refine ⟨?_, hpost⟩
  intro s' hs'
  obtain rfl := List.mem_singleton.mp hs'
  exact hinv

end Triple

end TrailM

end Egressfox.Lib
