import Mathlib

/-!
# Sorting by a strict comparison

A slice sort is given a strict comparison and promises only that the output is a
rearrangement in which no later element compares below an earlier one.  Every
comparison of this development is the pull-back of a linear order along a key,
so the lemmas are stated for a `key : α → κ` with
`less a b ↔ key a < key b`.

The one fact that carries most of the weight is `sortSlice_eq_of_perm`: as soon as
the keys are pairwise distinct, the sorted list is determined by the *set* of
elements.  It is also why the stability of the sort never matters when keys are
distinct, and why one executable sort stands for the stable and the unstable one.
-/

universe u v

namespace Egressfox.Lib

variable {α : Type u} {κ : Type v}

/-- Sort a list by a strict comparison.  Elements neither of which compares below
the other keep their order. -/
def sortSlice (less : α → α → Bool) (l : List α) : List α :=
  l.insertionSort fun a b => less b a = false

theorem sortSlice_perm (less : α → α → Bool) (l : List α) : (sortSlice less l).Perm l :=
  List.perm_insertionSort _ l

@[simp] theorem mem_sortSlice {less : α → α → Bool} {l : List α} {a : α} :
    a ∈ sortSlice less l ↔ a ∈ l := (sortSlice_perm less l).mem_iff

@[simp] theorem length_sortSlice (less : α → α → Bool) (l : List α) :
    (sortSlice less l).length = l.length := (sortSlice_perm less l).length_eq

section Keyed

variable [LinearOrder κ] {less : α → α → Bool} {key : α → κ}

/-- The output is weakly increasing in the key. -/
theorem sortSlice_pairwise_le (hless : ∀ a b, less a b = true ↔ key a < key b)
    (l : List α) : (sortSlice less l).Pairwise fun a b => key a ≤ key b := by
  have hle : ∀ a b, less b a = false ↔ key a ≤ key b := by
    intro a b
    rw [← not_lt, ← hless b a, Bool.not_eq_true]
  have htotal : Std.Total fun a b => less b a = false :=
    ⟨fun a b => by simpa only [hle] using le_total (key a) (key b)⟩
  have htrans : IsTrans α fun a b => less b a = false :=
    ⟨fun a b c hab hbc => (hle a c).mpr (le_trans ((hle a b).mp hab) ((hle b c).mp hbc))⟩
  exact (List.pairwise_insertionSort _ l).imp fun {a b} hab => (hle a b).mp hab

/-- With pairwise distinct keys the output is strictly increasing. -/
theorem sortSlice_pairwise_lt (hless : ∀ a b, less a b = true ↔ key a < key b)
    {l : List α} (hl : (l.map key).Nodup) :
    (sortSlice less l).Pairwise fun a b => key a < key b := by
  have hnodup : ((sortSlice less l).map key).Nodup :=
    ((sortSlice_perm less l).map key).nodup_iff.mpr hl
  have hne : (sortSlice less l).Pairwise fun a b => key a ≠ key b := List.pairwise_map.mp hnodup
  exact (sortSlice_pairwise_le hless l).imp₂ (fun _ _ hle hne => lt_of_le_of_ne hle hne) hne

/-- A list strictly increasing in the key is determined by its elements. -/
theorem eq_of_perm_of_pairwise_lt {l₁ l₂ : List α} (h₁ : l₁.Pairwise fun a b => key a < key b)
    (h₂ : l₂.Pairwise fun a b => key a < key b) (hperm : l₁.Perm l₂) : l₁ = l₂ :=
  hperm.eq_of_pairwise (fun _ _ _ _ hab hba => absurd hab (lt_asymm hba)) h₁ h₂

theorem eq_of_mem_iff_of_pairwise_lt {l₁ l₂ : List α}
    (h₁ : l₁.Pairwise fun a b => key a < key b) (h₂ : l₂.Pairwise fun a b => key a < key b)
    (hmem : ∀ a, a ∈ l₁ ↔ a ∈ l₂) : l₁ = l₂ := by
  have hnodup : ∀ {l : List α}, l.Pairwise (fun a b => key a < key b) → l.Nodup := by
    intro l h
    exact h.imp fun hlt heq => absurd (congrArg key heq) hlt.ne
  exact eq_of_perm_of_pairwise_lt h₁ h₂
    ((List.perm_ext_iff_of_nodup (hnodup h₁) (hnodup h₂)).mpr hmem)

/-- **Sorting forgets the order of its input** when the keys are pairwise distinct. -/
theorem sortSlice_eq_of_perm (hless : ∀ a b, less a b = true ↔ key a < key b)
    {l₁ l₂ : List α} (hl : (l₁.map key).Nodup) (hperm : l₁.Perm l₂) :
    sortSlice less l₁ = sortSlice less l₂ :=
  eq_of_perm_of_pairwise_lt (sortSlice_pairwise_lt hless hl)
    (sortSlice_pairwise_lt hless ((hperm.map key).nodup_iff.mp hl))
    (((sortSlice_perm less l₁).trans hperm).trans (sortSlice_perm less l₂).symm)

/-- Keys that repeat are adjacent in the output: a sorted list without two equal
neighbouring keys has pairwise distinct keys. -/
theorem pairwise_lt_of_isChain_ne {l : List α} (hle : l.Pairwise fun a b => key a ≤ key b)
    (hne : l.IsChain fun a b => key a ≠ key b) : l.Pairwise fun a b => key a < key b := by
  have hchain : l.IsChain fun a b => key a < key b := by
    induction l with
    | nil => exact .nil
    | cons a l ih =>
      cases l with
      | nil => exact .singleton a
      | cons b l =>
        obtain ⟨hab, hne⟩ := List.isChain_cons_cons.mp hne
        obtain ⟨hle₁, hle⟩ := List.pairwise_cons.mp hle
        exact .cons_cons (lt_of_le_of_ne (hle₁ b (by simp)) hab) (ih hle hne)
  have : Trans (fun a b => key a < key b) (fun a b => key a < key b) fun a b => key a < key b :=
    ⟨lt_trans⟩
  exact List.isChain_iff_pairwise.mp hchain

end Keyed

/-- Sorting commutes with a map that respects the comparison. -/
theorem map_sortSlice {β : Type*} (f : α → β) {less : α → α → Bool} {less' : β → β → Bool}
    {l : List α} (h : ∀ a ∈ l, ∀ b ∈ l, less' (f a) (f b) = less a b) :
    (sortSlice less l).map f = sortSlice less' (l.map f) :=
  List.map_insertionSort _ _ f l fun a ha b hb => by rw [h b hb a ha]

end Egressfox.Lib
