import Mathlib

/-!
# Semaphores with a key

Workers hold tokens, each worker at most one, and a token has a key.  The number of tokens that
are taken is kept per key.  The count is right (`Counted`) as long as every token is taken and
given back by a worker; which worker it is does not matter.
-/

namespace Egressfox.Lib

variable {κ ω : Type} [DecidableEq κ]

namespace Semaphore

/-- A token of the key is taken. -/
def acquire (taken : κ → Nat) (key : κ) : κ → Nat := Function.update taken key (taken key + 1)

/-- A token of the key is given back. -/
def release (taken : κ → Nat) (key : κ) : κ → Nat := Function.update taken key (taken key - 1)

/-- As many tokens of a key are taken as workers hold one. -/
def Counted (held : ω → Option κ) (taken : κ → Nat) (workers : List ω) : Prop :=
  ∀ key, taken key = workers.countP fun w => held w = some key

namespace Counted

variable {held : ω → Option κ} {taken : κ → Nat} {workers workers' rest : List ω} {w w' : ω}
  {key : κ}

theorem perm (h : Counted held taken workers) (hperm : workers'.Perm workers) :
    Counted held taken workers' := by
  intro key
  rw [hperm.countP_eq]
  exact h key

/-- A worker goes on with the token it has. -/
theorem keep (h : Counted held taken (w :: rest)) (hheld : held w' = held w) :
    Counted held taken (w' :: rest) := by
  intro key
  rw [h key, List.countP_cons, List.countP_cons, hheld]

/-- A worker without a token takes one. -/
theorem acquire (h : Counted held taken (w :: rest)) (hheld : held w = none)
    (hheld' : held w' = some key) : Counted held (acquire taken key) (w' :: rest) := by
  intro other
  have hcount := h other
  rw [List.countP_cons, hheld] at hcount
  rw [List.countP_cons, hheld', Semaphore.acquire]
  by_cases hother : other = key
  · subst hother
    simpa using hcount
  · rw [Function.update_of_ne hother, hcount]
    simp [Ne.symm hother]

/-- A worker gives its token back. -/
theorem release (h : Counted held taken (w :: rest)) (hheld : held w = some key)
    (hheld' : held w' = none) : Counted held (release taken key) (w' :: rest) := by
  intro other
  have hcount := h other
  rw [List.countP_cons, hheld] at hcount
  rw [List.countP_cons, hheld', Semaphore.release]
  by_cases hother : other = key
  · subst hother
    rw [Function.update_self, hcount]
    simp
  · rw [Function.update_of_ne hother, hcount]
    simp [Ne.symm hother]

/-- A token that is taken is held by a worker. -/
theorem exists_holder (h : Counted held taken workers) (hpos : 0 < taken key) :
    ∃ w ∈ workers, held w = some key := by
  rw [h key, List.countP_pos_iff] at hpos
  obtain ⟨w, hw, hheld⟩ := hpos
  exact ⟨w, hw, by simpa using hheld⟩

/-- A token that a worker holds is taken. -/
theorem pos (h : Counted held taken workers) (hw : w ∈ workers) (hheld : held w = some key) :
    0 < taken key := by
  rw [h key, List.countP_pos_iff]
  exact ⟨w, hw, by simpa using hheld⟩

/-- Of two kinds of tokens, if whoever has one of the first kind has one of the second, at least
as many of the second are taken. -/
theorem le {held' : ω → Option κ} {taken' : κ → Nat} (h : Counted held taken workers)
    (h' : Counted held' taken' workers) (hheld : ∀ w, held w = some key → held' w = some key) :
    taken key ≤ taken' key := by
  rw [h key, h' key]
  exact List.countP_mono_left fun w _ hw => by simpa using hheld w (by simpa using hw)

end Counted

theorem acquire_le {taken : κ → Nat} {limit : Nat} (h : ∀ key, taken key ≤ limit) {key : κ}
    (hroom : taken key < limit) : ∀ other, acquire taken key other ≤ limit := by
  intro other
  by_cases hother : other = key
  · rw [hother, acquire, Function.update_self]
    exact hroom
  · rw [acquire, Function.update_of_ne hother]
    exact h other

theorem release_le {taken : κ → Nat} {limit : Nat} (h : ∀ key, taken key ≤ limit) (key : κ) :
    ∀ other, release taken key other ≤ limit := by
  intro other
  by_cases hother : other = key
  · rw [hother, release, Function.update_self]
    exact le_trans (Nat.sub_le _ _) (h key)
  · rw [release, Function.update_of_ne hother]
    exact h other

end Semaphore

/-- One element of a list, in front of the others. -/
theorem exists_perm_set {α : Type} {l : List α} {n : Nat} {a : α} (h : l[n]? = some a) :
    ∃ rest, l.Perm (a :: rest) ∧ ∀ b, (l.set n b).Perm (b :: rest) := by
  induction l generalizing n with
  | nil => cases h
  | cons x l ih =>
    cases n with
    | zero =>
      obtain rfl := Option.some.inj h
      exact ⟨l, List.Perm.refl _, fun b => List.Perm.refl _⟩
    | succ n =>
      obtain ⟨rest, hperm, hset⟩ := ih h
      refine ⟨x :: rest, (hperm.cons x).trans (List.Perm.swap _ _ _), fun b => ?_⟩
      exact ((hset b).cons x).trans (List.Perm.swap _ _ _)

end Egressfox.Lib
