import Mathlib

/-!
# Cutting a list at a separator

A list is cut at the first or at the last occurrence of a separator (`cut`, `cutLast`); the two
parts are determined by the separator being absent from the one or from the other
(`cut_eq_some_iff`, `cutLast_eq_some_iff`).  Cutting at every separator is `List.splitOn`, which
commutes with maps that keep separators apart from other elements (`splitOn_map`).
-/

namespace Egressfox.Lib

variable {α : Type} [DecidableEq α] {c : α} {text front back : List α}

/-- The parts before and behind the first separator. -/
def cut (c : α) : List α → Option (List α × List α)
  | [] => none
  | a :: rest =>
    if a = c then some ([], rest)
    else (cut c rest).map fun parts => (a :: parts.1, parts.2)

/-- The parts before and behind the last separator. -/
def cutLast (c : α) (text : List α) : Option (List α × List α) :=
  (cut c text.reverse).map fun parts => (parts.2.reverse, parts.1.reverse)

theorem cut_append (h : c ∉ front) (text : List α) :
    cut c (front ++ text) = (cut c text).map fun parts => (front ++ parts.1, parts.2) := by
  induction front with
  | nil => simp
  | cons a front ih =>
    rw [List.cons_append, cut, if_neg (List.ne_of_not_mem_cons h).symm,
      ih (List.not_mem_of_not_mem_cons h), Option.map_map]
    rfl

theorem cut_append_cons (h : c ∉ front) (back : List α) :
    cut c (front ++ c :: back) = some (front, back) := by
  rw [cut_append h, cut, if_pos rfl, Option.map_some, List.append_nil]

theorem cut_eq_none_iff : cut c text = none ↔ c ∉ text := by
  constructor
  · intro h hmem
    obtain ⟨front, back, rfl, hfront⟩ := List.eq_append_cons_of_mem hmem
    rw [cut_append_cons hfront] at h
    cases h
  · intro h
    simpa [cut] using cut_append h []

theorem cut_eq_some_iff :
    cut c text = some (front, back) ↔ text = front ++ c :: back ∧ c ∉ front := by
  constructor
  · intro h
    have hmem : c ∈ text := by
      by_contra hnot
      rw [cut_eq_none_iff.mpr hnot] at h
      cases h
    obtain ⟨front', back', rfl, hfront⟩ := List.eq_append_cons_of_mem hmem
    rw [cut_append_cons hfront] at h
    obtain ⟨rfl, rfl⟩ := Prod.mk.inj (Option.some.inj h)
    exact ⟨rfl, hfront⟩
  · rintro ⟨rfl, hfront⟩
    exact cut_append_cons hfront back

theorem cutLast_eq_some_iff :
    cutLast c text = some (front, back) ↔ text = front ++ c :: back ∧ c ∉ back := by
  rw [cutLast, Option.map_eq_some_iff]
  constructor
  · rintro ⟨⟨back', front'⟩, hcut, hparts⟩
    obtain ⟨rfl, rfl⟩ := Prod.mk.inj hparts
    obtain ⟨htext, hback⟩ := cut_eq_some_iff.mp hcut
    refine ⟨?_, by simpa using hback⟩
    rw [← List.reverse_reverse text, htext]
    simp
  · rintro ⟨rfl, hback⟩
    refine ⟨(back.reverse, front.reverse), cut_eq_some_iff.mpr ⟨by simp, by simpa using hback⟩, ?_⟩
    simp

theorem cutLast_eq_none_iff : cutLast c text = none ↔ c ∉ text := by
  rw [cutLast, Option.map_eq_none_iff, cut_eq_none_iff, List.mem_reverse]

omit [DecidableEq α] in
/-- Where a separator occurs only once, a text is cut in one way. -/
theorem eq_of_append_cons {front' back' : List α} (h : front ++ c :: back = front' ++ c :: back')
    (hfront : c ∉ front') (hback : c ∉ back') : front = front' ∧ back = back' := by
  rcases List.append_eq_append_iff.mp h with ⟨middle, hmiddle, hrest⟩ | ⟨middle, hmiddle, hrest⟩
  · cases middle with
    | nil => exact ⟨by simpa using hmiddle.symm, by simpa using hrest⟩
    | cons a middle =>
      obtain rfl : c = a := (List.cons.inj hrest).1
      exact absurd (by rw [hmiddle]; simp) hfront
  · cases middle with
    | nil => exact ⟨by simpa using hmiddle, by simpa using hrest.symm⟩
    | cons a middle =>
      exact absurd (by rw [(List.cons.inj hrest).2]; simp) hback

theorem splitOn_map {f : α → α} (hf : ∀ a, f a = c ↔ a = c) (text : List α) :
    (text.map f).splitOn c = (text.splitOn c).map (List.map f) := by
  induction text with
  | nil => simp
  | cons a text ih =>
    rw [List.map_cons, List.splitOn_cons_eq_if_modifyHead, List.splitOn_cons_eq_if_modifyHead, ih]
    by_cases ha : a = c
    · rw [if_pos (by simpa using (hf a).mpr ha), if_pos (by simpa using ha)]
      rfl
    · rw [if_neg (by simpa using fun h => ha ((hf a).mp h)), if_neg (by simpa using ha)]
      cases text.splitOn c with
      | nil | cons part parts => rfl

/-- The parts of a text have no other elements. -/
theorem mem_of_mem_splitOn {part : List α} (hpart : part ∈ text.splitOn c) {a : α}
    (ha : a ∈ part) : a ∈ text := by
  induction text generalizing part with
  | nil => simp_all
  | cons b text ih =>
    rw [List.splitOn_cons_eq_if_modifyHead] at hpart
    split at hpart
    · rcases List.mem_cons.mp hpart with rfl | hpart
      · cases ha
      · exact List.mem_cons_of_mem _ (ih hpart ha)
    · cases hsplit : text.splitOn c with
      | nil =>
        rw [hsplit] at hpart
        cases hpart
      | cons first parts =>
        rw [hsplit] at hpart ih
        rcases List.mem_cons.mp hpart with rfl | hpart
        · rcases List.mem_cons.mp ha with rfl | ha
          · exact List.mem_cons_self
          · exact List.mem_cons_of_mem _ (ih List.mem_cons_self ha)
        · exact List.mem_cons_of_mem _ (ih (List.mem_cons_of_mem _ hpart) ha)

/-- The parts of a text, each with a separator, are as long as the text with one more. -/
theorem sum_length_splitOn (c : α) (text : List α) :
    ((text.splitOn c).map fun part => part.length + 1).sum = text.length + 1 := by
  induction text with
  | nil => simp
  | cons a text ih =>
    rw [List.splitOn_cons_eq_if_modifyHead]
    split_ifs
    · rw [List.map_cons, List.sum_cons, ih, List.length_nil, List.length_cons]
      omega
    · obtain ⟨part, parts, hparts⟩ := List.exists_cons_of_ne_nil (List.splitOn_ne_nil c text)
      rw [hparts] at ih ⊢
      rw [List.map_cons, List.sum_cons] at ih
      rw [List.modifyHead_cons, List.map_cons, List.sum_cons, List.length_cons, List.length_cons]
      omega

end Egressfox.Lib
