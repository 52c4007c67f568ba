import Mathlib

/-!
# Maps that are iterated over

Finite maps are association lists with distinct keys (`AList`), read through `lookup`.
Added here are the loops over all entries: a map of the values, the entries that pass a
test, and whether some entry passes one.  The order of the entries is never visible.
-/

namespace Egressfox.Lib

variable {κ δ : Type} [DecidableEq κ]

/-- A map from keys to values. -/
abbrev Assoc (κ δ : Type) := AList fun _ : κ => δ

namespace Assoc

/-- Whether some entry passes a test. -/
def any (p : κ → δ → Bool) (s : Assoc κ δ) : Bool := s.entries.any fun entry => p entry.1 entry.2

variable {p : κ → δ → Bool} {s : Assoc κ δ} {k : κ} {d : δ} {writes : List (κ × δ)}

theorem any_iff : any p s = true ↔ ∃ k d, s.lookup k = some d ∧ p k d = true := by
  rw [any, List.any_eq_true]
  constructor
  · rintro ⟨⟨k, d⟩, hmem, hp⟩
    exact ⟨k, d, AList.mem_lookup_iff.mpr hmem, hp⟩
  · rintro ⟨k, d, hlookup, hp⟩
    exact ⟨⟨k, d⟩, AList.mem_lookup_iff.mp hlookup, hp⟩

/-- Every value replaced. -/
def mapValues {γ : Type} (f : δ → γ) (s : Assoc κ δ) : Assoc κ γ where
  entries := s.entries.map fun entry => ⟨entry.1, f entry.2⟩
  nodupKeys := by
    have hkeys : (s.entries.map fun entry => (⟨entry.1, f entry.2⟩ : (_ : κ) × γ)).keys =
        s.entries.keys := by
      simp [List.keys, Function.comp_def]
    unfold List.NodupKeys
    rw [hkeys]
    exact s.nodupKeys

@[simp] theorem lookup_mapValues {γ : Type} (f : δ → γ) (s : Assoc κ δ) (k : κ) :
    (mapValues f s).lookup k = (s.lookup k).map f :=
  List.dlookup_map₂ (γ := fun _ => δ) (δ := fun _ => γ) (l := s.entries) (f := fun _ => f) k

/-- The entries that pass a test. -/
def retain (p : κ → δ → Bool) (s : Assoc κ δ) : Assoc κ δ where
  entries := s.entries.filter fun entry => p entry.1 entry.2
  nodupKeys := s.nodupKeys.sublist List.filter_sublist

theorem lookup_retain : (retain p s).lookup k = some d ↔ s.lookup k = some d ∧ p k d = true := by
  rw [← Option.mem_def, ← Option.mem_def, AList.mem_lookup_iff, AList.mem_lookup_iff, retain,
    List.mem_filter]

/-- Whether all entries pass a test. -/
def all (p : κ → δ → Bool) (s : Assoc κ δ) : Bool := s.entries.all fun entry => p entry.1 entry.2

theorem all_iff : all p s = true ↔ ∀ k d, s.lookup k = some d → p k d = true := by
  rw [all, List.all_eq_true]
  constructor
  · intro h k d hlookup
    exact h ⟨k, d⟩ (AList.mem_lookup_iff.mp hlookup)
  · rintro h ⟨k, d⟩ hmem
    exact h k d (AList.mem_lookup_iff.mpr hmem)

/-- Writes, one after the other. -/
def writeAll (s : Assoc κ δ) (writes : List (κ × δ)) : Assoc κ δ :=
  writes.foldl (fun s entry => s.insert entry.1 entry.2) s

theorem writeAll_append (s : Assoc κ δ) (writes writes' : List (κ × δ)) :
    writeAll s (writes ++ writes') = writeAll (writeAll s writes) writes' :=
  List.foldl_append

/-- A key that is not written keeps its value. -/
theorem lookup_writeAll_of_notMem (h : k ∉ writes.map Prod.fst) :
    (writeAll s writes).lookup k = s.lookup k := by
  induction writes generalizing s with
  | nil => rfl
  | cons entry writes ih =>
    rw [List.map_cons, List.mem_cons, not_or] at h
    exact (ih h.2).trans (AList.lookup_insert_ne h.1)

/-- A key that is written has a value. -/
theorem lookup_writeAll_of_mem (h : k ∈ writes.map Prod.fst) :
    ∃ d, (writeAll s writes).lookup k = some d := by
  induction writes generalizing s with
  | nil => cases h
  | cons entry writes ih =>
    by_cases hrest : k ∈ writes.map Prod.fst
    · exact ih hrest
    · have hk : k = entry.1 := (List.mem_cons.mp h).resolve_right hrest
      subst hk
      exact ⟨entry.2, (lookup_writeAll_of_notMem hrest).trans (AList.lookup_insert _)⟩

/-- A value is the last that was written, or it was there before. -/
theorem lookup_writeAll (h : (writeAll s writes).lookup k = some d) :
    (∃ before after, writes = before ++ (k, d) :: after ∧ k ∉ after.map Prod.fst) ∨
      k ∉ writes.map Prod.fst ∧ s.lookup k = some d := by
  induction writes generalizing s with
  | nil => exact .inr ⟨List.not_mem_nil, h⟩
  | cons entry writes ih =>
    rcases ih h with ⟨before, after, rfl, hlast⟩ | ⟨hrest, hentry⟩
    · exact .inl ⟨entry :: before, after, rfl, hlast⟩
    by_cases hk : k = entry.1
    · subst hk
      rw [AList.lookup_insert, Option.some.injEq] at hentry
      subst hentry
      exact .inl ⟨[], writes, rfl, hrest⟩
    · rw [AList.lookup_insert_ne hk] at hentry
      refine .inr ⟨?_, hentry⟩
      rw [List.map_cons, List.mem_cons, not_or]
      exact ⟨hk, hrest⟩

end Assoc

end Egressfox.Lib
