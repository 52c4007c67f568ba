import Mathlib

/-!
# One greedy replacement pass

A selection of fixed size is improved in one pass: the challengers arrive best
first, and each of them takes the position of the worst replaceable entry when it
is *better* than that entry.  Entries may be *frozen*, and a frozen entry is never
replaced.  The pass is a relation here, so that any loop that picks the worst
entry in whatever way is an instance.

Two preorders are involved and they need not agree: `rank` orders challengers and
decides which entry is the worst, while `better` decides whether a replacement
happens.  All that is asked of `better` is that it implies a strictly smaller rank.

Under that assumption three things hold whatever `better` is.

* **Each position changes at most once** (`Pass.inv`): a challenger that got in is
  never replaced, and an entry that got out never comes back.
* **When the pass is a fixpoint** (`Pass.eq_start_iff`): exactly when no challenger
  is better than the worst entry of the selection it started from.
* **The pass is a two-pointer pairing** (`Pass.pairs`): challengers in order
  against replaceable entries, worst first.

The last two together say when a *second* pass changes nothing, which a second
pass over the same challengers need not do.
-/

universe u v

namespace Egressfox.Lib.Exchange

variable {α : Type u} {κ : Type v} [LinearOrder κ]
variable {frozen : α → Prop} {rank : α → κ} {better : α → α → Bool}

/-- `w`, at position `i`, is replaceable and no replaceable entry ranks above it. -/
structure IsWorst (frozen : α → Prop) (rank : α → κ) (s : List α) (i : Nat) (w : α) : Prop where
  /-- Position of the entry. -/
  get : s[i]? = some w
  /-- The entry may be replaced. -/
  free : ¬ frozen w
  /-- No replaceable entry ranks above it. -/
  greatest : ∀ y ∈ s, ¬ frozen y → rank y ≤ rank w

theorem IsWorst.mem {s : List α} {i : Nat} {w : α} (h : IsWorst frozen rank s i w) : w ∈ s :=
  List.mem_of_getElem? h.get

/-- One challenger is offered to the selection. -/
inductive Step (frozen : α → Prop) (rank : α → κ) (better : α → α → Bool) :
    List α → α → List α → Prop
  | /-- It is selected already. -/
    held {s c} : c ∈ s → Step frozen rank better s c s
  | /-- Nothing may be replaced. -/
    stuck {s c} : c ∉ s → (∀ y ∈ s, frozen y) → Step frozen rank better s c s
  | /-- It is no better than the worst entry. -/
    refused {s c i w} : c ∉ s → IsWorst frozen rank s i w → better c w = false →
      Step frozen rank better s c s
  | /-- It takes the place of the worst entry. -/
    taken {s c i w} : c ∉ s → IsWorst frozen rank s i w → better c w = true →
      Step frozen rank better s c (s.set i c)

/-- The challenger is passed over, or takes the place of the worst entry. -/
theorem Step.eq_or_taken {s s' : List α} {c : α} (h : Step frozen rank better s c s') :
    s' = s ∨ ∃ i w, c ∉ s ∧ IsWorst frozen rank s i w ∧ better c w = true ∧ s' = s.set i c := by
  cases h with
  | held | stuck | refused => exact Or.inl rfl
  | taken hc hw hb => exact Or.inr ⟨_, _, hc, hw, hb, rfl⟩

/-- Only the challenger can be new. -/
theorem Step.mem_or_eq {s s' : List α} {c x : α} (h : Step frozen rank better s c s')
    (hx : x ∈ s') : x ∈ s ∨ x = c := by
  rcases h.eq_or_taken with rfl | ⟨i, w, -, -, -, rfl⟩
  · exact Or.inl hx
  · exact List.mem_or_eq_of_mem_set hx

/-- The challengers are offered one after the other. -/
inductive Pass (frozen : α → Prop) (rank : α → κ) (better : α → α → Bool) (start : List α) :
    List α → List α → Prop
  | /-- No challenger. -/ nil : Pass frozen rank better start [] start
  | /-- One more challenger. -/
    snoc {cs s c s'} : Pass frozen rank better start cs s → Step frozen rank better s c s' →
      Pass frozen rank better start (cs ++ [c]) s'

/-- Whatever is selected at the end was selected at the start or is a challenger. -/
theorem Pass.mem_or_mem {start cs s : List α} (h : Pass frozen rank better start cs s) {x : α}
    (hx : x ∈ s) : x ∈ start ∨ x ∈ cs := by
  induction h with
  | nil => exact Or.inl hx
  | snoc _ hstep ih =>
    rcases hstep.mem_or_eq hx with hx | rfl
    · exact (ih hx).imp_right (List.mem_append_left _)
    · exact Or.inr (by simp)

/-- Replacing one entry of a duplicate-free list. -/
theorem mem_set_iff {s : List α} (hs : s.Nodup) {i : Nat} {w c x : α} (hi : s[i]? = some w) :
    x ∈ s.set i c ↔ x = c ∨ (x ∈ s ∧ x ≠ w) := by
  obtain ⟨hlt, rfl⟩ := List.getElem?_eq_some_iff.mp hi
  rw [List.mem_iff_getElem, List.mem_iff_getElem]
  simp only [List.length_set, List.getElem_set]
  constructor
  · rintro ⟨j, hj, rfl⟩
    split_ifs with hij
    · exact Or.inl rfl
    · exact Or.inr ⟨⟨j, hj, rfl⟩, fun heq => hij (hs.getElem_inj_iff.mp heq).symm⟩
  · rintro (rfl | ⟨⟨j, hj, rfl⟩, hne⟩)
    · exact ⟨i, hlt, if_pos rfl⟩
    · exact ⟨j, hj, if_neg fun hij => hne (by subst hij; rfl)⟩

/-! ## What a pass preserves -/

/-- What is known after offering the challengers `done` to the selection `start`. -/
structure Inv (frozen : α → Prop) (rank : α → κ) (better : α → α → Bool)
    (start done s : List α) : Prop where
  /-- The size is fixed. -/
  length_eq : s.length = start.length
  /-- Nothing is selected twice. -/
  nodup : s.Nodup
  /-- Nothing comes from elsewhere. -/
  mem : ∀ x ∈ s, x ∈ start ∨ x ∈ done
  /-- A position either keeps its entry or holds a better outsider in the place of
  a replaceable one. -/
  entry : ∀ (i : Nat) (x : α), start[i]? = some x → s[i]? = some x ∨
    ∃ c, s[i]? = some c ∧ c ∉ start ∧ c ∈ done ∧ ¬ frozen x ∧ better c x = true
  /-- What was replaced ranks above everything still replaceable. -/
  displaced : ∀ d ∈ start, d ∉ s → ∀ x ∈ s, ¬ frozen x → rank x < rank d

theorem Inv.refl {start : List α} (hstart : start.Nodup) :
    Inv frozen rank better start [] start where
  length_eq := rfl
  nodup := hstart
  mem := fun _ hx => Or.inl hx
  entry := fun _ _ hx => Or.inl hx
  displaced := fun _ hd hd' => absurd hd hd'

section

variable (hbetter : ∀ c w, better c w = true → rank c < rank w)
include hbetter

/-- A replaced entry does not come back: the entries left are below it in rank, so
it is better than none of them. -/
theorem Inv.taken_notMem {start done s : List α} (h : Inv frozen rank better start done s)
    {c w : α} {i : Nat} (hc : c ∉ s) (hw : IsWorst frozen rank s i w)
    (hb : better c w = true) : c ∉ start := fun hmem =>
  lt_asymm (hbetter c w hb) (h.displaced c hmem hc w hw.mem hw.free)

/-- The worst entry that a challenger takes over is one of the start: a challenger
accepted earlier ranks below the present one. -/
theorem Inv.taken_get {start done s : List α} (h : Inv frozen rank better start done s)
    {c w : α} {i : Nat} (hlt : ∀ a ∈ done, rank a < rank c)
    (hw : IsWorst frozen rank s i w) (hb : better c w = true) : start[i]? = some w := by
  obtain ⟨hi, -⟩ := List.getElem?_eq_some_iff.mp hw.get
  have hi' : i < start.length := h.length_eq ▸ hi
  rcases h.entry i start[i] (List.getElem?_eq_getElem hi') with hs | ⟨a, hs, _, ha, _, _⟩
  · rw [List.getElem?_eq_getElem hi', ← hs, hw.get]
  · have haw : a = w := Option.some.inj (hs.symm.trans hw.get)
    exact absurd (hbetter c w hb) (lt_asymm (haw ▸ hlt a ha))

theorem Inv.step {U : Set α} (hU : Set.InjOn rank U) {start done s s' : List α} {c : α}
    (hstart : ∀ x ∈ start, x ∈ U) (hdone : ∀ x ∈ done, x ∈ U)
    (h : Inv frozen rank better start done s) (hlt : ∀ a ∈ done, rank a < rank c)
    (hstep : Step frozen rank better s c s') :
    Inv frozen rank better start (done ++ [c]) s' := by
  have hsame : Inv frozen rank better start (done ++ [c]) s :=
    { h with
      mem := fun x hx => (h.mem x hx).imp_right (List.mem_append_left _)
      entry := fun i x hx => (h.entry i x hx).imp_right fun ⟨a, hs, hn, ha, hf, hb⟩ =>
        ⟨a, hs, hn, List.mem_append_left _ ha, hf, hb⟩ }
  have hsU : ∀ x ∈ s, x ∈ U := fun x hx => (h.mem x hx).elim (hstart x) (hdone x)
  rcases hstep.eq_or_taken with rfl | ⟨i, w, hc, hw, hb, rfl⟩
  · exact hsame
  · have hget := h.taken_get hbetter hlt hw hb
    have hcstart := h.taken_notMem hbetter hc hw hb
    obtain ⟨hi, -⟩ := List.getElem?_eq_some_iff.mp hw.get
    refine ⟨by simpa using h.length_eq, h.nodup.set hc, ?_, ?_, ?_⟩
    · intro x hx
      rcases (mem_set_iff h.nodup hw.get).mp hx with rfl | ⟨hx, -⟩
      · exact Or.inr (by simp)
      · exact hsame.mem x hx
    · intro j x hx
      by_cases hij : i = j
      · subst hij
        obtain rfl : w = x := Option.some.inj (hget.symm.trans hx)
        exact Or.inr ⟨c, by simp [hi], hcstart, by simp, hw.free, hb⟩
      · rw [List.getElem?_set_ne hij]
        exact hsame.entry j x hx
    · intro d hd hd' x hx hf
      have hwd : d ∉ s ∨ d = w := by
        by_cases hds : d ∈ s
        · refine Or.inr (not_not.mp fun hne => hd' ?_)
          exact (mem_set_iff h.nodup hw.get).mpr (Or.inr ⟨hds, hne⟩)
        · exact Or.inl hds
      rcases (mem_set_iff h.nodup hw.get).mp hx with rfl | ⟨hx, hne⟩
      · rcases hwd with hds | rfl
        · exact lt_trans (hbetter _ w hb) (h.displaced d hd hds w hw.mem hw.free)
        · exact hbetter _ _ hb
      · rcases hwd with hds | rfl
        · exact h.displaced d hd hds x hx hf
        · exact lt_of_le_of_ne (hw.greatest x hx hf) fun he => hne (hU (hsU x hx) (hsU _ hw.mem) he)

/-- **Each position changes at most once**, over a whole pass. -/
theorem Pass.inv {U : Set α} (hU : Set.InjOn rank U) {start cs s : List α}
    (hnodup : start.Nodup) (hstart : ∀ x ∈ start, x ∈ U) (hcs : ∀ x ∈ cs, x ∈ U)
    (hsorted : cs.Pairwise fun a b => rank a < rank b)
    (h : Pass frozen rank better start cs s) : Inv frozen rank better start cs s := by
  induction h with
  | nil => exact Inv.refl hnodup
  | snoc _ hstep ih =>
    obtain ⟨hsorted, -, hlt⟩ := List.pairwise_append.mp hsorted
    have hcs' := fun x hx => hcs x (List.mem_append_left _ hx)
    exact (ih hcs' hsorted).step hbetter hU hstart hcs'
      (fun a ha => hlt a ha _ (List.mem_singleton.mpr rfl)) hstep

/-! ## Fixpoints -/

/-- **A pass changes nothing** exactly when no challenger is better than the worst
entry of the selection it starts from. -/
theorem Pass.eq_start_iff {U : Set α} (hU : Set.InjOn rank U) {start cs s : List α}
    (hnodup : start.Nodup) (hstart : ∀ x ∈ start, x ∈ U) (hcs : ∀ x ∈ cs, x ∈ U)
    (hsorted : cs.Pairwise fun a b => rank a < rank b)
    (h : Pass frozen rank better start cs s) :
    s = start ↔ ∀ c ∈ cs, c ∉ start → ∀ i w, IsWorst frozen rank start i w →
      better c w = false := by
  induction h with
  | nil => simp
  | @snoc cs s c s' hpass hstep ih =>
    obtain ⟨hsorted', -, hlt⟩ := List.pairwise_append.mp hsorted
    have hcs' := fun x hx => hcs x (List.mem_append_left _ hx)
    have hinv := hpass.inv hbetter hU hnodup hstart hcs' hsorted'
    have ih := ih hcs' hsorted'
    constructor
    · intro hs'
      -- A challenger that gets in is not part of the start, so this step took none.
      have hs : s' = s := by
        rcases hstep.eq_or_taken with hs | ⟨i, w, hc, hw, hb, rfl⟩
        · exact hs
        · refine absurd ?_ (hinv.taken_notMem hbetter hc hw hb)
          rw [← hs']
          exact (mem_set_iff hinv.nodup hw.get).mpr (Or.inl rfl)
      have hss : s = start := hs.symm.trans hs'
      intro c' hc' hnot i w hw
      rcases List.mem_append.mp hc' with hc' | hc'
      · exact ih.mp hss c' hc' hnot i w hw
      · obtain rfl := List.mem_singleton.mp hc'
        cases hstep with
        | held hmem => exact absurd (hss ▸ hmem) hnot
        | stuck _ hall => exact absurd (hall w (hss ▸ hw.mem)) hw.free
        | @refused j v _ hv hb =>
          have hvs : IsWorst frozen rank start j v := hss ▸ hv
          have hvw : v = w := hU (hstart v hvs.mem) (hstart w hw.mem)
            (le_antisymm (hw.greatest v hvs.mem hvs.free) (hvs.greatest w hw.mem hw.free))
          exact hvw ▸ hb
        | @taken j v hc hv hb =>
          refine absurd ?_ hnot
          rw [← hs']
          exact (mem_set_iff hinv.nodup hv.get).mpr (Or.inl rfl)
    · intro hno
      have hss : s = start := ih.mpr fun c' hc' => hno c' (List.mem_append_left _ hc')
      subst hss
      rcases hstep.eq_or_taken with hs | ⟨i, w, hc, hw, hb, -⟩
      · exact hs
      · rw [hno c (by simp) hc i w hw] at hb
        cases hb

end

/-! ## The pass as a pairing -/

/-- Outcome of pairing challengers with replaceable entries. -/
structure Pairing (α : Type u) where
  /-- Challengers that took no position. -/
  skipped : List α
  /-- Challengers that took one. -/
  taken : List α
  /-- Entries that kept theirs, worst first. -/
  left : List α
deriving DecidableEq, Repr

/-- Offer one challenger to the worst entry left. -/
def Pairing.offer (better : α → α → Bool) (p : Pairing α) (c : α) : Pairing α :=
  match p.left with
  | [] => { p with skipped := p.skipped ++ [c] }
  | w :: rest =>
    if better c w then { p with taken := p.taken ++ [c], left := rest }
    else { p with skipped := p.skipped ++ [c] }

/-- Pair the challengers `cs`, in order, with the replaceable entries `ws`, worst
first: a challenger takes the worst entry left when it is better than it. -/
def pairing (better : α → α → Bool) (cs ws : List α) : Pairing α :=
  cs.foldl (Pairing.offer better) ⟨[], [], ws⟩

theorem pairing_snoc (better : α → α → Bool) (cs ws : List α) (c : α) :
    pairing better (cs ++ [c]) ws = (pairing better cs ws).offer better c := by
  simp [pairing]

/-- How the pairing `p` of the challengers `done` describes the selection `s`. -/
structure Pairs (frozen : α → Prop) (start ws done s : List α) (p : Pairing α) : Prop where
  /-- The selection holds the frozen entries, the entries left and the challengers
  taken. -/
  mem_iff : ∀ x, x ∈ s ↔ (x ∈ start ∧ frozen x) ∨ x ∈ p.left ∨ x ∈ p.taken
  /-- The best of the replaceable entries are left. -/
  suffix : p.left <:+ ws
  /-- Challengers taken come from outside. -/
  taken : ∀ x ∈ p.taken, x ∈ done ∧ x ∉ start
  /-- Challengers skipped are not selected. -/
  skipped : ∀ x ∈ p.skipped, x ∈ done ∧ x ∉ start ∧ x ∉ s
  /-- Every challenger from outside is one or the other. -/
  cover : ∀ x ∈ done, x ∉ start → x ∈ p.taken ∨ x ∈ p.skipped

section

variable {U : Set α} (hU : Set.InjOn rank U)
variable (hbetter : ∀ c w, better c w = true → rank c < rank w)
variable {start ws : List α} (hws : ws.Pairwise fun a b => rank b < rank a)
  (hmem : ∀ x, x ∈ ws ↔ x ∈ start ∧ ¬ frozen x)

/-- A replaceable entry that a challenger beats is one of the entries left: the
challengers taken so far rank below it. -/
theorem Pairs.mem_left {done s : List α} {p : Pairing α} {c w : α}
    (h : Pairs frozen start ws done s p) (hlt : ∀ a ∈ done, rank a < rank c)
    (hw : w ∈ s) (hfree : ¬ frozen w) (hle : rank c < rank w) : w ∈ p.left := by
  rcases (h.mem_iff w).mp hw with ⟨-, hf⟩ | hl | ht
  · exact absurd hf hfree
  · exact hl
  · exact absurd hle (lt_asymm (hlt w (h.taken w ht).1))

include hbetter hws hmem in
theorem Pairs.step {done s s' : List α} {p : Pairing α} {c : α}
    (hinv : Inv frozen rank better start done s) (h : Pairs frozen start ws done s p)
    (hlt : ∀ a ∈ done, rank a < rank c) (hc : c ∉ start)
    (hstep : Step frozen rank better s c s') :
    Pairs frozen start ws (done ++ [c]) s' (p.offer better c) := by
  have hcdone : c ∉ done := fun hd => lt_irrefl _ (hlt c hd)
  have hcs : c ∉ s := fun hs => (hinv.mem c hs).elim hc hcdone
  -- The challenger is passed over: only the list of skipped challengers grows.
  have hskip : Pairs frozen start ws (done ++ [c]) s { p with skipped := p.skipped ++ [c] } :=
    { mem_iff := h.mem_iff
      suffix := h.suffix
      taken := fun x hx => ⟨List.mem_append_left _ (h.taken x hx).1, (h.taken x hx).2⟩
      skipped := by
        intro x hx
        rcases List.mem_append.mp hx with hx | hx
        · exact ⟨List.mem_append_left _ (h.skipped x hx).1, (h.skipped x hx).2⟩
        · obtain rfl := List.mem_singleton.mp hx
          exact ⟨by simp, hc, hcs⟩
      cover := by
        intro x hx hxs
        rcases List.mem_append.mp hx with hx | hx
        · exact (h.cover x hx hxs).imp_right (List.mem_append_left _)
        · exact Or.inr (List.mem_append_right _ hx) }
  unfold Pairing.offer
  cases hl : p.left with
  | nil =>
    rw [hl] at hskip
    rcases hstep.eq_or_taken with rfl | ⟨i, w, -, hw, hb, -⟩
    · exact hskip
    · have hleft := h.mem_left hlt hw.mem hw.free (hbetter c w hb)
      rw [hl] at hleft
      cases hleft
  | cons v rest =>
    have hsuf : v :: rest <:+ ws := hl ▸ h.suffix
    have hvws : v ∈ ws := hsuf.subset (by simp)
    have hvs : v ∈ s := (h.mem_iff v).mpr (Or.inr (Or.inl (hl ▸ by simp)))
    have hvfree : ¬ frozen v := ((hmem v).mp hvws).2
    have hdesc := hws.sublist hsuf.sublist
    obtain ⟨hrest, -⟩ := List.pairwise_cons.mp hdesc
    -- Whatever replaceable entry a challenger beats, the worst one is `v`.
    have hworst : ∀ i w, IsWorst frozen rank s i w → rank c < rank w → w = v := by
      intro i w hw hcw
      have hwl := h.mem_left hlt hw.mem hw.free hcw
      rw [hl] at hwl
      rcases List.mem_cons.mp hwl with rfl | hwr
      · rfl
      · exact absurd (hw.greatest v hvs hvfree) (not_le.mpr (hrest w hwr))
    by_cases hb : better c v = true
    · simp only [hb, if_true]
      cases hstep with
      | held hmem => exact absurd hmem hcs
      | stuck _ hall => exact absurd (hall v hvs) hvfree
      | @refused i w _ hw hbf =>
        obtain rfl := hworst i w hw (lt_of_lt_of_le (hbetter c v hb) (hw.greatest v hvs hvfree))
        rw [hbf] at hb
        exact absurd hb (by simp)
      | @taken i w _ hw hbw =>
        obtain rfl := hworst i w hw (hbetter c w hbw)
        have hwstart : w ∈ start := ((hmem w).mp hvws).1
        have hmem' : ∀ x, x ∈ s.set i c ↔ (x ∈ start ∧ frozen x) ∨ x ∈ rest ∨
            x ∈ p.taken ++ [c] := by
          intro x
          rw [mem_set_iff hinv.nodup hw.get, h.mem_iff, hl, List.mem_append,
            List.mem_singleton, List.mem_cons]
          constructor
          · rintro (rfl | ⟨hx | (rfl | hx) | hx, hne⟩)
            · exact Or.inr (Or.inr (Or.inr rfl))
            · exact Or.inl hx
            · exact absurd rfl hne
            · exact Or.inr (Or.inl hx)
            · exact Or.inr (Or.inr (Or.inl hx))
          · rintro (hx | hx | hx | rfl)
            · refine Or.inr ⟨Or.inl hx, ?_⟩
              rintro rfl
              exact hvfree hx.2
            · refine Or.inr ⟨Or.inr (Or.inl (Or.inr hx)), ?_⟩
              rintro rfl
              exact lt_irrefl _ (hrest x hx)
            · refine Or.inr ⟨Or.inr (Or.inr hx), ?_⟩
              rintro rfl
              exact (h.taken x hx).2 hwstart
            · exact Or.inl rfl
        refine ⟨hmem', (List.suffix_cons w rest).trans hsuf, ?_, ?_, ?_⟩
        · intro x hx
          rcases List.mem_append.mp hx with hx | hx
          · exact ⟨List.mem_append_left _ (h.taken x hx).1, (h.taken x hx).2⟩
          · obtain rfl := List.mem_singleton.mp hx
            exact ⟨by simp, hc⟩
        · intro x hx
          obtain ⟨hxd, hxst, hxs⟩ := h.skipped x hx
          refine ⟨List.mem_append_left _ hxd, hxst, fun hx' => ?_⟩
          rcases (mem_set_iff hinv.nodup hw.get).mp hx' with rfl | ⟨hx', -⟩
          · exact hcdone hxd
          · exact hxs hx'
        · intro x hx hxs
          rcases List.mem_append.mp hx with hx | hx
          · exact (h.cover x hx hxs).imp_left (List.mem_append_left _)
          · exact Or.inl (List.mem_append_right _ hx)
    · have hbf : better c v = false := by simpa using hb
      simp only [hbf]
      rw [hl] at hskip
      rcases hstep.eq_or_taken with rfl | ⟨i, w, -, hw, hbw, -⟩
      · exact hskip
      · obtain rfl := hworst i w hw (hbetter c w hbw)
        exact absurd hbw hb

include hU hbetter hws hmem in
/-- **The pass is a two-pointer pairing** of the challengers from outside with the
replaceable entries, worst first. -/
theorem Pass.pairs {cs s : List α} {outside : α → Bool} (hnodup : start.Nodup)
    (hstart : ∀ x ∈ start, x ∈ U) (hcs : ∀ x ∈ cs, x ∈ U)
    (hsorted : cs.Pairwise fun a b => rank a < rank b)
    (hout : ∀ c ∈ cs, outside c = true ↔ c ∉ start)
    (h : Pass frozen rank better start cs s) :
    Pairs frozen start ws cs s (pairing better (cs.filter outside) ws) := by
  induction h with
  | nil =>
    refine ⟨fun x => ?_, List.suffix_refl _, by simp [pairing], by simp [pairing], by simp⟩
    have hx : x ∈ (pairing better [] ws).left ↔ x ∈ start ∧ ¬ frozen x := hmem x
    simp only [List.filter_nil, hx]
    have hnil : x ∉ (pairing better [] ws).taken := by simp [pairing]
    tauto
  | @snoc cs s c s' hpass hstep ih =>
    obtain ⟨hsorted', -, hlt⟩ := List.pairwise_append.mp hsorted
    have hcs' := fun x hx => hcs x (List.mem_append_left _ hx)
    have hinv := hpass.inv hbetter hU hnodup hstart hcs' hsorted'
    have hlt' : ∀ a ∈ cs, rank a < rank c := fun a ha => hlt a ha c (by simp)
    have hpairs := ih hcs' hsorted' fun x hx => hout x (List.mem_append_left _ hx)
    by_cases hc : c ∈ start
    · -- A member of the start is no challenger from outside, and never gets in again.
      have hcf : outside c = false := by
        rw [← Bool.not_eq_true, hout c (by simp)]
        exact not_not.mpr hc
      have hs : s' = s := by
        rcases hstep.eq_or_taken with hs | ⟨i, w, hcs, hw, hb, -⟩
        · exact hs
        · exact absurd hc (hinv.taken_notMem hbetter hcs hw hb)
      rw [hs, List.filter_append, List.filter_cons_of_neg (by simp [hcf]), List.filter_nil,
        List.append_nil]
      refine ⟨hpairs.mem_iff, hpairs.suffix, ?_, ?_, ?_⟩
      · exact fun x hx =>
          ⟨List.mem_append_left _ (hpairs.taken x hx).1, (hpairs.taken x hx).2⟩
      · exact fun x hx =>
          ⟨List.mem_append_left _ (hpairs.skipped x hx).1, (hpairs.skipped x hx).2⟩
      · intro x hx hxs
        rcases List.mem_append.mp hx with hx | hx
        · exact hpairs.cover x hx hxs
        · exact absurd (List.mem_singleton.mp hx ▸ hc) hxs
    · have hct : outside c = true := (hout c (by simp)).mpr hc
      rw [List.filter_append, List.filter_cons_of_pos hct, List.filter_nil, pairing_snoc]
      exact hpairs.step hbetter hws hmem hinv hlt' hc hstep

end

end Egressfox.Lib.Exchange
