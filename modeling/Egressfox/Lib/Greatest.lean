import Mathlib

/-!
# Keeping the greatest elements

A bounded store keeps of a finite set the elements that rank highest: at most `n` of the
whole set (`greatest`), at most `k` under each key (`greatestPerKey`), or both at once
(`capped`, first the keys, then the whole).  The question about such a store is always
whether keeping while elements arrive loses something that keeping once, of everything
that ever arrived, would have kept.

`capped` is a choice function, and the answer is that it is *path independent*:
`capped_capped_union`.  Two facts carry it.  What is chosen of a set is chosen of every
subset it is in (`mem_capped_of_subset`): the number of kept elements above a given one is
a sum over the keys of `min k`, so it only grows with the set.  And by the same sum a
subset has no more chosen elements than the set, so dropping only elements that are not
chosen changes nothing (`capped_eq_of_between`).

A third bound drops every element whose time lies before a cutoff.  As soon as the rank
refines the time it commutes with the other two (`capped_filter`), because whatever is above
a recent element is recent.
-/

universe u v w

namespace Egressfox.Lib

variable {α : Type u} {ω : Type v} {κ : Type w} [LinearOrder ω] (rank : α → ω)

/-! ## The `n` greatest -/

/-- The elements that rank strictly above `a`. -/
def above (s : Finset α) (a : α) : Finset α := s.filter fun b => rank a < rank b

/-- The `n` greatest elements: those with fewer than `n` above them. -/
def greatest (n : ℕ) (s : Finset α) : Finset α := s.filter fun a => (above rank s a).card < n

variable {rank}

variable {s t : Finset α} {a : α} {n k : ℕ}

@[simp] theorem mem_above {b : α} :
    b ∈ above rank s a ↔ b ∈ s ∧ rank a < rank b := Finset.mem_filter

@[simp] theorem mem_greatest :
    a ∈ greatest rank n s ↔ a ∈ s ∧ (above rank s a).card < n := Finset.mem_filter

theorem above_mono (h : s ⊆ t) (a : α) : above rank s a ⊆ above rank t a :=
  Finset.filter_subset_filter _ h

theorem greatest_subset (n : ℕ) (s : Finset α) : greatest rank n s ⊆ s :=
  Finset.filter_subset _ _

section

variable [DecidableEq α]

/-- There are `n` greatest elements, or as many as there are elements. -/
theorem card_greatest (n : ℕ) (hrank : Set.InjOn rank s) :
    (greatest rank n s).card = min n s.card := by
  -- the least element has all others above it and is above none of them
  induction s using Finset.induction_on_min_value rank with
  | empty => simp [greatest]
  | insert a s ha hmin ih =>
    have habove : ∀ b ∈ s, above rank (insert a s) b = above rank s b := by
      intro b hb
      exact (Finset.filter_insert _ _ _).trans (if_neg (not_lt.mpr (hmin b hb)))
    have hall : above rank (insert a s) a = s := by
      ext b
      rw [mem_above, Finset.mem_insert]
      constructor
      · rintro ⟨rfl | hb, hlt⟩
        · exact absurd hlt (lt_irrefl _)
        · exact hb
      · intro hb
        have hne : rank a ≠ rank b := by
          intro heq
          have : a = b := hrank (by simp) (by simp [hb]) heq
          exact ha (this ▸ hb)
        exact ⟨.inr hb, lt_of_le_of_ne (hmin b hb) hne⟩
    have hsplit : greatest rank n (insert a s) =
        if s.card < n then insert a (greatest rank n s) else greatest rank n s := by
      unfold greatest
      rw [Finset.filter_insert, hall, Finset.filter_congr fun b hb => by rw [habove b hb]]
    have hcard := ih (hrank.mono (by simp))
    rw [hsplit, Finset.card_insert_of_notMem ha]
    split_ifs with hn
    · rw [Finset.card_insert_of_notMem fun h => ha (greatest_subset n s h), hcard]
      omega
    · rw [hcard]
      omega

/-- Cutting a list that falls in rank after `n` elements leaves the `n` greatest. -/
theorem mem_take_iff_mem_greatest {l : List α} (hl : l.Pairwise fun a b => rank b < rank a)
    (n : ℕ) (a : α) : a ∈ l.take n ↔ a ∈ greatest rank n l.toFinset := by
  induction l generalizing n with
  | nil => simp
  | cons b l ih =>
    obtain ⟨hb, hl⟩ := List.pairwise_cons.mp hl
    have htop : above rank (b :: l).toFinset b = ∅ := by
      apply Finset.filter_eq_empty_iff.mpr
      intro c hc
      rcases List.mem_cons.mp (List.mem_toFinset.mp hc) with rfl | hc
      · exact lt_irrefl _
      · exact lt_asymm (hb c hc)
    have hbelow : ∀ c ∈ l, (above rank (b :: l).toFinset c).card =
        (above rank l.toFinset c).card + 1 := by
      intro c hc
      have hnot : b ∉ above rank l.toFinset c := by
        intro h
        exact lt_irrefl _ (hb b (List.mem_toFinset.mp (mem_above.mp h).1))
      rw [← Finset.card_insert_of_notMem hnot, List.toFinset_cons]
      exact congrArg Finset.card ((Finset.filter_insert _ _ _).trans (if_pos (hb c hc)))
    cases n with
    | zero => simp
    | succ n =>
      rw [List.take_succ_cons, List.mem_cons, ih hl, mem_greatest, mem_greatest,
        List.mem_toFinset, List.mem_toFinset, List.mem_cons]
      constructor
      · rintro (rfl | ⟨ha, hn⟩)
        · exact ⟨.inl rfl, by rw [htop]; simp⟩
        · exact ⟨.inr ha, by rw [hbelow a ha]; omega⟩
      · rintro ⟨rfl | ha, hn⟩
        · exact .inl rfl
        · rw [hbelow a ha] at hn
          exact .inr ⟨ha, by omega⟩

end

/-! ## The greatest under each key -/

variable [DecidableEq κ] {key : α → κ}

variable (rank key) in
/-- The `k` greatest elements of each key. -/
def greatestPerKey (k : ℕ) (s : Finset α) : Finset α :=
  s.filter fun a => (above rank (s.filter fun b => key b = key a) a).card < k

@[simp] theorem mem_greatestPerKey :
    a ∈ greatestPerKey rank key k s ↔
      a ∈ s ∧ (above rank (s.filter fun b => key b = key a) a).card < k := Finset.mem_filter

theorem greatestPerKey_subset (k : ℕ) (s : Finset α) : greatestPerKey rank key k s ⊆ s :=
  Finset.filter_subset _ _

/-- Under one key, the elements kept are the greatest of that key. -/
theorem filter_greatestPerKey (k : ℕ) (s : Finset α) (i : κ) :
    (greatestPerKey rank key k s).filter (fun a => key a = i) =
      greatest rank k (s.filter fun a => key a = i) := by
  ext a
  rw [Finset.mem_filter, mem_greatestPerKey, mem_greatest, Finset.mem_filter]
  constructor
  · rintro ⟨⟨ha, hk⟩, rfl⟩
    exact ⟨⟨ha, rfl⟩, hk⟩
  · rintro ⟨⟨ha, rfl⟩, hk⟩
    exact ⟨⟨ha, hk⟩, rfl⟩

variable [DecidableEq α]

/-- A subset keeps no more elements under the keys. -/
theorem card_greatestPerKey_le (k : ℕ) (hrank : Set.InjOn rank t) (h : s ⊆ t) :
    (greatestPerKey rank key k s).card ≤ (greatestPerKey rank key k t).card := by
  have hmaps : ∀ u ⊆ t, ∀ a ∈ greatestPerKey rank key k u, key a ∈ t.image key :=
    fun u hu a ha => Finset.mem_image_of_mem key (hu (greatestPerKey_subset k u ha))
  have hcard : ∀ u ⊆ t, (greatestPerKey rank key k u).card =
      ∑ i ∈ t.image key, min k (u.filter fun a => key a = i).card := by
    intro u hu
    rw [Finset.card_eq_sum_card_fiberwise (hmaps u hu)]
    refine Finset.sum_congr rfl fun i _ => ?_
    rw [filter_greatestPerKey, card_greatest]
    exact hrank.mono fun a ha => hu (Finset.mem_filter.mp ha).1
  rw [hcard s h, hcard t subset_rfl]
  refine Finset.sum_le_sum fun i _ => ?_
  exact min_le_min le_rfl (Finset.card_le_card (Finset.filter_subset_filter _ h))

omit [DecidableEq α] in
/-- Whether an element is kept under its key does not depend on what lies below it. -/
theorem above_greatestPerKey (k : ℕ) (s : Finset α) (a : α) :
    above rank (greatestPerKey rank key k s) a = greatestPerKey rank key k (above rank s a) := by
  ext b
  rw [mem_above, mem_greatestPerKey, mem_greatestPerKey, mem_above]
  have hsame : rank a < rank b →
      above rank ((above rank s a).filter fun c => key c = key b) b =
        above rank (s.filter fun c => key c = key b) b := by
    intro hab
    ext c
    simp only [mem_above, Finset.mem_filter]
    constructor
    · rintro ⟨⟨⟨hc, -⟩, hkey⟩, hbc⟩
      exact ⟨⟨hc, hkey⟩, hbc⟩
    · rintro ⟨⟨hc, hkey⟩, hbc⟩
      exact ⟨⟨⟨hc, hab.trans hbc⟩, hkey⟩, hbc⟩
  constructor
  · rintro ⟨⟨hb, hk⟩, hab⟩
    exact ⟨⟨hb, hab⟩, by rw [hsame hab]; exact hk⟩
  · rintro ⟨⟨hb, hab⟩, hk⟩
    rw [hsame hab] at hk
    exact ⟨⟨hb, hk⟩, hab⟩

/-- A set that is within its bound under every key but one is pruned by pruning that key. -/
theorem greatestPerKey_eq_of_le (k : ℕ) {i : κ}
    (h : ∀ j, j ≠ i → (s.filter fun a => key a = j).card ≤ k) :
    greatestPerKey rank key k s =
      s.filter fun a => key a = i → a ∈ greatest rank k (s.filter fun b => key b = i) := by
  unfold greatestPerKey
  refine Finset.filter_congr fun a ha => ?_
  by_cases hi : key a = i
  · simp [hi, ha]
  · simp only [hi, false_implies, iff_true]
    -- `a` itself is one of at most `k` elements of its key
    have hlt : above rank (s.filter fun b => key b = key a) a ⊂ s.filter fun b => key b = key a :=
      Finset.filter_ssubset.mpr ⟨a, by simp [ha], lt_irrefl _⟩
    exact (Finset.card_lt_card hlt).trans_le (h _ hi)

/-! ## Both bounds -/

variable (rank key) in
/-- The `n` greatest of the `k` greatest of each key. -/
def capped (k n : ℕ) (s : Finset α) : Finset α :=
  greatest rank n (greatestPerKey rank key k s)

omit [DecidableEq α] in
theorem capped_subset (k n : ℕ) (s : Finset α) : capped rank key k n s ⊆ s :=
  (greatest_subset n _).trans (greatestPerKey_subset k s)

/-- **Heritage.**  What is chosen of a set is chosen of every subset that has it. -/
theorem mem_capped_of_subset (hrank : Set.InjOn rank t) (h : s ⊆ t) (ha : a ∈ capped rank key k n t)
    (has : a ∈ s) : a ∈ capped rank key k n s := by
  obtain ⟨hkept, hn⟩ := mem_greatest.mp ha
  obtain ⟨-, hk⟩ := mem_greatestPerKey.mp hkept
  refine mem_greatest.mpr ⟨mem_greatestPerKey.mpr ⟨has, lt_of_le_of_lt ?_ hk⟩, lt_of_le_of_lt ?_ hn⟩
  · exact Finset.card_le_card (above_mono (Finset.filter_subset_filter _ h) a)
  · rw [above_greatestPerKey, above_greatestPerKey]
    exact card_greatestPerKey_le k (hrank.mono fun b hb => (mem_above.mp hb).1) (above_mono h a)

/-- A subset has no more chosen elements than the set. -/
theorem card_capped_le (hrank : Set.InjOn rank t) (h : s ⊆ t) :
    (capped rank key k n s).card ≤ (capped rank key k n t).card := by
  have hcard : ∀ u ⊆ t, (capped rank key k n u).card = min n (greatestPerKey rank key k u).card :=
    fun u hu => card_greatest n (hrank.mono ((greatestPerKey_subset k u).trans hu))
  rw [hcard s h, hcard t subset_rfl]
  exact min_le_min le_rfl (card_greatestPerKey_le k hrank h)

/-- **Outcast.**  Dropping elements that are not chosen changes nothing. -/
theorem capped_eq_of_between (hrank : Set.InjOn rank t) (h : s ⊆ t)
    (hchosen : capped rank key k n t ⊆ s) : capped rank key k n s = capped rank key k n t := by
  refine (Finset.eq_of_subset_of_card_le ?_ (card_capped_le hrank h)).symm
  intro a ha
  exact mem_capped_of_subset hrank h ha (hchosen ha)

/-- **Path independence.**  Choosing before the union changes nothing. -/
theorem capped_capped_union (hrank : Set.InjOn rank (s ∪ t : Finset α)) :
    capped rank key k n (capped rank key k n s ∪ t) = capped rank key k n (s ∪ t) := by
  apply capped_eq_of_between hrank
  · exact Finset.union_subset_union (capped_subset k n s) subset_rfl
  · intro a ha
    rcases Finset.mem_union.mp (capped_subset k n _ ha) with has | hat
    · exact Finset.mem_union_left _ (mem_capped_of_subset hrank Finset.subset_union_left ha has)
    · exact Finset.mem_union_right _ hat

/-- What is chosen is within the bound under each key. -/
theorem card_filter_capped_le (hrank : Set.InjOn rank s) (i : κ) :
    ((capped rank key k n s).filter fun a => key a = i).card ≤ k := by
  have hsub : ((capped rank key k n s).filter fun a => key a = i) ⊆
      greatest rank k (s.filter fun a => key a = i) := by
    rw [← filter_greatestPerKey]
    exact Finset.filter_subset_filter _ (greatest_subset n _)
  have hcard : (greatest rank k (s.filter fun a => key a = i)).card = min k _ :=
    card_greatest k (hrank.mono fun a ha => (Finset.mem_filter.mp ha).1)
  exact (Finset.card_le_card hsub).trans (hcard ▸ min_le_left _ _)

/-! ## Dropping what is old -/

section Recent

variable {τ : Type*} [LinearOrder τ] {time : α → τ}

omit [DecidableEq α] in
/-- Dropping the old elements commutes with choosing: what is above a recent element is
recent. -/
theorem capped_filter (htime : ∀ a b, rank a < rank b → time a ≤ time b) (cutoff : τ) :
    capped rank key k n (s.filter fun a => cutoff ≤ time a) =
      (capped rank key k n s).filter fun a => cutoff ≤ time a := by
  have habove : ∀ (u : Finset α) (a : α), cutoff ≤ time a →
      above rank (u.filter fun b => cutoff ≤ time b) a = above rank u a := by
    intro u a ha
    ext b
    simp only [mem_above, Finset.mem_filter]
    constructor
    · rintro ⟨⟨hb, -⟩, hab⟩
      exact ⟨hb, hab⟩
    · rintro ⟨hb, hab⟩
      exact ⟨⟨hb, ha.trans (htime a b hab)⟩, hab⟩
  have hkeys : greatestPerKey rank key k (s.filter fun a => cutoff ≤ time a) =
      (greatestPerKey rank key k s).filter fun a => cutoff ≤ time a := by
    ext a
    simp only [mem_greatestPerKey, Finset.mem_filter]
    rw [and_right_comm]
    refine and_congr_left fun ha => and_congr_right fun _ => ?_
    rw [Finset.filter_comm, habove _ a ha]
  ext a
  unfold capped
  rw [hkeys, mem_greatest, Finset.mem_filter, Finset.mem_filter, mem_greatest, and_right_comm]
  refine and_congr_left fun ha => and_congr_right fun _ => ?_
  rw [habove _ a ha]

variable (rank key time) in
/-- What a store with all three bounds keeps of the elements `s`. -/
def retained (k n : ℕ) (cutoff : τ) (s : Finset α) : Finset α :=
  capped rank key k n (s.filter fun a => cutoff ≤ time a)

/-- **Keeping while elements arrive is keeping once.**  As long as the cutoff does not go
back, what was dropped earlier does not matter. -/
theorem retained_insert_retained {cutoff cutoff' : τ}
    (htime : ∀ a b, rank a < rank b → time a ≤ time b) (hcutoff : cutoff ≤ cutoff')
    (hrank : Set.InjOn rank (insert a s : Finset α)) :
    retained rank key time k n cutoff' (insert a (retained rank key time k n cutoff s)) =
      retained rank key time k n cutoff' (insert a s) := by
  have hlater : ∀ u : Finset α,
      (insert a (u.filter fun b => cutoff ≤ time b)).filter (fun b => cutoff' ≤ time b) =
        (insert a u).filter fun b => cutoff' ≤ time b := by
    intro u
    ext b
    simp only [Finset.mem_filter, Finset.mem_insert]
    constructor
    · rintro ⟨rfl | ⟨hb, -⟩, hlate⟩
      · exact ⟨.inl rfl, hlate⟩
      · exact ⟨.inr hb, hlate⟩
    · rintro ⟨rfl | hb, hlate⟩
      · exact ⟨.inl rfl, hlate⟩
      · exact ⟨.inr ⟨hb, hcutoff.trans hlate⟩, hlate⟩
  have hpath : capped rank key k n (insert a (capped rank key k n s)) =
      capped rank key k n (insert a s) := by
    rw [Finset.insert_eq, Finset.insert_eq, Finset.union_comm, Finset.union_comm {a} s]
    refine capped_capped_union ?_
    rwa [Finset.union_comm, ← Finset.insert_eq]
  calc retained rank key time k n cutoff' (insert a (retained rank key time k n cutoff s))
      = capped rank key k n ((insert a (capped rank key k n s)).filter fun b =>
          cutoff' ≤ time b) := by
            unfold retained
            rw [capped_filter htime cutoff, hlater]
    _ = (capped rank key k n (insert a (capped rank key k n s))).filter fun b =>
          cutoff' ≤ time b := capped_filter htime cutoff'
    _ = (capped rank key k n (insert a s)).filter fun b => cutoff' ≤ time b := by rw [hpath]
    _ = retained rank key time k n cutoff' (insert a s) := (capped_filter htime cutoff').symm

end Recent

/-! ## Through a map

A map that keeps the comparisons, the keys and the cutoff carries what is kept to what is
kept. -/

section Image

variable {β : Type*} [DecidableEq β] {ω' : Type*} [LinearOrder ω'] {rank' : β → ω'} {f : α → β}

omit [DecidableEq κ] [DecidableEq α] in
theorem card_above_image (hf : Set.InjOn f s)
    (hrank : ∀ b ∈ s, rank' (f a) < rank' (f b) ↔ rank a < rank b) :
    (above rank' (s.image f) (f a)).card = (above rank s a).card := by
  unfold above
  rw [Finset.filter_image, Finset.filter_congr hrank, Finset.card_image_of_injOn]
  exact hf.mono fun b hb => (Finset.mem_filter.mp hb).1

omit [DecidableEq κ] [DecidableEq α] in
theorem greatest_image (n : ℕ) (hf : Set.InjOn f s)
    (hrank : ∀ a ∈ s, ∀ b ∈ s, rank' (f a) < rank' (f b) ↔ rank a < rank b) :
    greatest rank' n (s.image f) = (greatest rank n s).image f := by
  unfold greatest
  rw [Finset.filter_image]
  refine congrArg (Finset.image f) (Finset.filter_congr fun a ha => ?_)
  rw [card_above_image hf (hrank a ha)]

variable {κ' : Type*} [DecidableEq κ'] {key' : β → κ'}

omit [DecidableEq α] in
theorem greatestPerKey_image (k : ℕ) (hf : Set.InjOn f s)
    (hrank : ∀ a ∈ s, ∀ b ∈ s, rank' (f a) < rank' (f b) ↔ rank a < rank b)
    (hkey : ∀ a ∈ s, ∀ b ∈ s, key' (f a) = key' (f b) ↔ key a = key b) :
    greatestPerKey rank' key' k (s.image f) = (greatestPerKey rank key k s).image f := by
  unfold greatestPerKey
  rw [Finset.filter_image]
  refine congrArg (Finset.image f) (Finset.filter_congr fun a ha => ?_)
  have hcard : (above rank' ((s.filter fun b => key b = key a).image f) (f a)).card =
      (above rank (s.filter fun b => key b = key a) a).card :=
    card_above_image (hf.mono fun b hb => (Finset.mem_filter.mp hb).1) fun b hb =>
      hrank a ha b (Finset.mem_filter.mp hb).1
  rw [Finset.filter_image, Finset.filter_congr fun b hb => hkey b hb a ha, hcard]

variable {τ τ' : Type*} [LinearOrder τ] [LinearOrder τ'] {time : α → τ} {time' : β → τ'}

omit [DecidableEq α] in
theorem retained_image {cutoff : τ} {cutoff' : τ'} (hf : Set.InjOn f s)
    (hrank : ∀ a ∈ s, ∀ b ∈ s, rank' (f a) < rank' (f b) ↔ rank a < rank b)
    (hkey : ∀ a ∈ s, ∀ b ∈ s, key' (f a) = key' (f b) ↔ key a = key b)
    (htime : ∀ a ∈ s, cutoff' ≤ time' (f a) ↔ cutoff ≤ time a) :
    retained rank' key' time' k n cutoff' (s.image f) =
      (retained rank key time k n cutoff s).image f := by
  have hsub : ∀ a ∈ s.filter (fun a => cutoff ≤ time a), a ∈ s := fun a ha =>
    (Finset.mem_filter.mp ha).1
  unfold retained capped
  rw [Finset.filter_image, Finset.filter_congr htime,
    greatestPerKey_image k (hf.mono hsub) (fun a ha b hb => hrank a (hsub a ha) b (hsub b hb))
      fun a ha b hb => hkey a (hsub a ha) b (hsub b hb)]
  have hkept : ∀ a ∈ greatestPerKey rank key k (s.filter fun a => cutoff ≤ time a), a ∈ s :=
    fun a ha => hsub a (greatestPerKey_subset k _ ha)
  exact greatest_image n (hf.mono hkept) fun a ha b hb => hrank a (hkept a ha) b (hkept b hb)

end Image

end Egressfox.Lib
