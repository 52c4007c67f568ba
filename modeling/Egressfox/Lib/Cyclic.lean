import Mathlib

/-!
# Going round a ring

A scan that goes round a ring of `n` positions, a few at a time, visits the positions of one
long turn.  A turn of `n` or more positions visits them all, and between two visits of one
position it visits every other.
-/

namespace Egressfox.Lib

/-- The next `count` positions of a ring of `n`, from `start` on. -/
def turn (n start count : Nat) : List Nat := (List.range count).map fun i => (start + i) % n

theorem length_turn (n start count : Nat) : (turn n start count).length = count := by
  rw [turn, List.length_map, List.length_range]

/-- A turn goes on where it was interrupted. -/
theorem turn_add (n start count more : Nat) :
    turn n start (count + more) = turn n start count ++ turn n (start + count) more := by
  simp only [turn, List.range_add, List.map_append, List.map_map, Function.comp_def, Nat.add_assoc]

/-- Where a turn starts matters only up to full rounds. -/
theorem turn_mod (n start count : Nat) : turn n (start % n) count = turn n start count := by
  simp only [turn, Nat.mod_add_mod]

theorem turn_one_add (n start count : Nat) :
    turn n start (1 + count) = start % n :: turn n (start + 1) count := by
  rw [turn_add]
  rfl

/-- A part of a turn is a turn. -/
theorem turn_eq_append {n start count : Nat} {l l' : List Nat}
    (h : turn n start count = l ++ l') :
    l = turn n start l.length ∧ l' = turn n (start + l.length) l'.length := by
  have hcount : count = l.length + l'.length := by
    rw [← List.length_append, ← h, length_turn]
  rw [hcount, turn_add] at h
  obtain ⟨hl, hl'⟩ := List.append_inj h (length_turn _ _ _)
  exact ⟨hl.symm, hl'.symm⟩

theorem lt_of_mem_turn {n start count p : Nat} (hn : 0 < n) (h : p ∈ turn n start count) :
    p < n := by
  obtain ⟨i, -, rfl⟩ := List.mem_map.mp h
  exact Nat.mod_lt _ hn

/-- At most one round visits no position twice. -/
theorem nodup_turn {n count : Nat} (start : Nat) (h : count ≤ n) : (turn n start count).Nodup := by
  refine List.Nodup.map_on ?_ List.nodup_range
  intro i hi j hj heq
  rw [List.mem_range] at hi hj
  have hmod : i ≡ j [MOD n] := Nat.ModEq.add_left_cancel' start heq
  exact hmod.eq_of_lt_of_lt (by omega) (by omega)

/-- A full round visits every position. -/
theorem mem_turn {n count p : Nat} (start : Nat) (h : n ≤ count) (hp : p < n) :
    p ∈ turn n start count := by
  -- the turn of `n` positions has `n` different ones, all below `n`
  have hsub : turn n start n ⊆ List.range n := fun q hq =>
    List.mem_range.mpr (lt_of_mem_turn (by omega) hq)
  have hperm : (turn n start n).Perm (List.range n) :=
    (List.subperm_of_subset (nodup_turn start le_rfl) hsub).perm_of_length_le (by
      rw [length_turn, List.length_range])
  obtain ⟨more, rfl⟩ := Nat.exists_eq_add_of_le h
  rw [turn_add, List.mem_append]
  exact .inl (hperm.mem_iff.mpr (List.mem_range.mpr hp))

/-- Between two occurrences of `p` there is one of `q`. -/
def Separates {α : Type} (p q : α) (l : List α) : Prop :=
  ∀ before between after, l = before ++ p :: between ++ p :: after → q ∈ between

/-- Between two visits of a position, a turn visits every other. -/
theorem separates_turn {n p q : Nat} (start count : Nat) (hq : q < n) (hne : q ≠ p) :
    Separates p q (turn n start count) := by
  intro before between after h
  rw [List.append_assoc] at h
  obtain ⟨-, hrest⟩ := turn_eq_append h
  set first := start + before.length
  obtain ⟨hhead, htail⟩ := turn_eq_append hrest.symm
  rw [List.length_cons, Nat.add_comm, turn_one_add] at hhead
  rw [List.length_cons, List.length_cons, Nat.add_comm after.length, turn_one_add] at htail
  obtain ⟨hp, hbetween⟩ := List.cons.inj hhead
  obtain ⟨hp', -⟩ := List.cons.inj htail
  -- the second visit is a whole number of rounds after the first
  have hdvd : n ∣ between.length + 1 := by
    have hmod : first + 0 ≡ first + (between.length + 1) [MOD n] := hp.symm.trans hp'
    exact (Nat.modEq_zero_iff_dvd).mp (Nat.ModEq.add_left_cancel' first hmod).symm
  have hmem : q ∈ turn n first (1 + between.length) :=
    mem_turn first (by have := Nat.le_of_dvd (Nat.succ_pos _) hdvd; omega) hq
  rw [turn_one_add, ← hp, ← hbetween, List.mem_cons] at hmem
  exact hmem.resolve_left hne

/-- Whether two elements separate is decided by what a filter that keeps them leaves. -/
theorem Separates.of_filter_eq {α : Type} {p q : α} {keep : α → Bool} {l l' : List α}
    (h : Separates p q l') (heq : l.filter keep = l'.filter keep) (hp : keep p = true)
    (hq : keep q = true) : Separates p q l := by
  intro before between after hl
  rw [hl, List.filter_append, List.filter_append, List.filter_cons_of_pos hp,
    List.filter_cons_of_pos hp, List.append_assoc] at heq
  obtain ⟨before', rest, rfl, -, hrest⟩ := List.filter_eq_append_iff.mp heq.symm
  obtain ⟨skipped, rest', rfl, -, -, hrest'⟩ := List.filter_eq_cons_iff.mp hrest
  obtain ⟨between', rest'', rfl, hbetween, hrest''⟩ := List.filter_eq_append_iff.mp hrest'
  obtain ⟨skipped', after', rfl, hskipped, -, -⟩ := List.filter_eq_cons_iff.mp hrest''
  have hmem := h (before' ++ skipped) (between' ++ skipped') after' (by simp)
  rcases List.mem_append.mp hmem with hmem | hmem
  · have hfilter : q ∈ between'.filter keep := List.mem_filter.mpr ⟨hmem, hq⟩
    rw [hbetween] at hfilter
    exact List.mem_of_mem_filter hfilter
  · exact absurd hq (hskipped q hmem)

end Egressfox.Lib
