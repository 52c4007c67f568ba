import Mathlib.Data.List.Basic

/-!
# Programs that ask

A program that reads a store it does not own asks questions, one after the other, and which it
asks may depend on the answers so far.  The store may change between two questions: a run gets a
store for every moment, and the moment of a question is the number of questions before it.

`Ensures` is what holds of the transcript and the result however the store behaves; it is shown
by rules that follow the program.  A store that stands still is the special case `eval`.
-/

namespace Egressfox.Lib

/-- A program that asks questions `q : Q` with answers in `R q`. -/
inductive Asking (Q : Type) (R : Q → Type) (α : Type) : Type where
  | done (a : α)
  | ask (q : Q) (next : R q → Asking Q R α)

namespace Asking

variable {Q : Type} {R : Q → Type} {α β : Type}

/-- Sequencing. -/
def bind : Asking Q R α → (α → Asking Q R β) → Asking Q R β
  | .done a, f => f a
  | .ask q next, f => .ask q fun r => (next r).bind f

instance : Monad (Asking Q R) where
  pure := .done
  bind := bind

/-- One question. -/
def question (q : Q) : Asking Q R (R q) := .ask q .done

/-- Sequencing of fallible programs: the first failure is the result. -/
def attempt {ε : Type} (p : Asking Q R (Except ε α)) (f : α → Asking Q R (Except ε β)) :
    Asking Q R (Except ε β) :=
  p >>= fun
    | .error e => pure (.error e)
    | .ok a => f a

/-- The questions asked and the answers given. -/
abbrev Transcript (Q : Type) (R : Q → Type) := List ((q : Q) × R q)

/-- Run a program on a store that may change: the result and the transcript so far. -/
def run (store : Nat → (q : Q) → R q) : Asking Q R α → Transcript Q R → α × Transcript Q R
  | .done a, log => (a, log)
  | .ask q next, log => run store (next (store log.length q)) (log ++ [⟨q, store log.length q⟩])

/-- Run a program on a store that stands still. -/
def eval (store : (q : Q) → R q) : Asking Q R α → α
  | .done a => a
  | .ask q next => eval store (next (store q))

@[simp] theorem eval_bind (store : (q : Q) → R q) (p : Asking Q R α) (f : α → Asking Q R β) :
    eval store (p >>= f) = eval store (f (eval store p)) := by
  induction p with
  | done a => rfl
  | ask q next ih => exact ih (store q)

@[simp] theorem eval_attempt {ε : Type} (store : (q : Q) → R q) (p : Asking Q R (Except ε α))
    (f : α → Asking Q R (Except ε β)) :
    eval store (attempt p f) = eval store p >>= fun a => eval store (f a) := by
  rw [attempt, eval_bind]
  cases eval store p with
  | error e => rfl
  | ok a => rfl

/-- What holds of the transcript and the result for any answers. -/
def Ensures : Asking Q R α → (Transcript Q R → α → Prop) → Prop
  | .done a, P => P [] a
  | .ask q next, P => ∀ r, (next r).Ensures fun log a => P (⟨q, r⟩ :: log) a

variable {P : Transcript Q R → α → Prop} {p : Asking Q R α}

namespace Ensures

theorem pure {a : α} (h : P [] a) : Ensures (Pure.pure a : Asking Q R α) P :=
  h

theorem mono {P' : Transcript Q R → α → Prop} (h : p.Ensures P) (himp : ∀ log a, P log a → P' log a)
    : p.Ensures P' := by
  induction p generalizing P P' with
  | done a => exact himp [] a h
  | ask q next ih => exact fun r => ih r (h r) fun log a => himp (⟨q, r⟩ :: log) a

theorem and {P' : Transcript Q R → α → Prop} (h : p.Ensures P) (h' : p.Ensures P') :
    p.Ensures fun log a => P log a ∧ P' log a := by
  induction p generalizing P P' with
  | done a => exact ⟨h, h'⟩
  | ask q next ih => exact fun r => ih r (h r) (h' r)

/-- What the second part ensures, given what the first part did. -/
theorem bind {f : α → Asking Q R β} {P' : Transcript Q R → β → Prop} (h : p.Ensures P)
    (hf : ∀ log a, P log a → (f a).Ensures fun log' b => P' (log ++ log') b) :
    (p >>= f).Ensures P' := by
  induction p generalizing P P' with
  | done a => exact hf [] a h
  | ask q next ih => exact fun r => ih r (h r) fun log a ha => hf (⟨q, r⟩ :: log) a ha

/-- A question, and what is done with its answer. -/
theorem question_bind {q : Q} {f : R q → Asking Q R β} {P : Transcript Q R → β → Prop}
    (h : ∀ r, (f r).Ensures fun log b => P (⟨q, r⟩ :: log) b) :
    (Asking.question q >>= f).Ensures P :=
  h

theorem attempt {ε : Type} {p : Asking Q R (Except ε α)} {f : α → Asking Q R (Except ε β)}
    {P : Transcript Q R → Except ε α → Prop} {P' : Transcript Q R → Except ε β → Prop}
    (h : p.Ensures P) (herror : ∀ log e, P log (.error e) → P' log (.error e))
    (hok : ∀ log a, P log (.ok a) → (f a).Ensures fun log' b => P' (log ++ log') b) :
    (p.attempt f).Ensures P' := by
  refine h.bind fun log result hresult => ?_
  cases result with
  | error e =>
    refine pure ?_
    rw [List.append_nil]
    exact herror log e hresult
  | ok a => exact hok log a hresult

/-- A run extends the transcript by one of which this holds. -/
theorem run (h : p.Ensures P) (store : Nat → (q : Q) → R q) (log : Transcript Q R) :
    ∃ own, (p.run store log).2 = log ++ own ∧ P own (p.run store log).1 := by
  induction p generalizing P log with
  | done a => exact ⟨[], (List.append_nil _).symm, h⟩
  | ask q next ih =>
    obtain ⟨own, hlog, hown⟩ := ih (store log.length q) (h _) (log ++ [⟨q, store log.length q⟩])
    exact ⟨_ :: own, hlog.trans (by rw [List.append_assoc]; rfl), hown⟩

/-- On a store that stands still, all answers are those of the store. -/
theorem eval (h : p.Ensures P) (store : (q : Q) → R q) :
    ∃ own : Transcript Q R, (∀ access ∈ own, access.2 = store access.1) ∧ P own (p.eval store) := by
  induction p generalizing P with
  | done a => exact ⟨[], fun _ hmem => (nomatch hmem), h⟩
  | ask q next ih =>
    obtain ⟨own, hstore, hown⟩ := ih (store q) (h _)
    refine ⟨⟨q, store q⟩ :: own, ?_, hown⟩
    intro access hmem
    rcases List.mem_cons.mp hmem with rfl | hmem
    · rfl
    · exact hstore access hmem

end Ensures

/-- Every answer of a run is what the store held at some moment. -/
theorem mem_run {store : Nat → (q : Q) → R q} {log : Transcript Q R}
    (hlog : ∀ access ∈ log, ∃ moment, access.2 = store moment access.1) :
    ∀ access ∈ (p.run store log).2, ∃ moment, access.2 = store moment access.1 := by
  induction p generalizing log with
  | done a => exact hlog
  | ask q next ih =>
    refine ih _ fun access hmem => ?_
    rcases List.mem_append.mp hmem with hmem | hmem
    · exact hlog access hmem
    · rw [List.mem_singleton.mp hmem]
      exact ⟨log.length, rfl⟩

end Asking

end Egressfox.Lib
