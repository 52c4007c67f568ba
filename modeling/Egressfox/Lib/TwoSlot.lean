import Mathlib

/-!
# Two durable slots and an external output

A process keeps a value in step with an output it does not control: it *stages* the
value together with the receipt the output will have, writes the output, reads it back
and *commits*.  There is no transaction over both, so after a crash the value to continue
with is found by comparing the receipts of the two slots with the output (`recover`).

The process is a small state machine, and a crash or an error is a `stop` in any phase.
A write is `publish`: it takes effect or not, and is reported or not, independently.

`Run.crashSafe` says what this buys.  What `recover` returns was staged with the current
receipt; the pair staged last is returned as soon as its write took effect; and if it did
not take effect, and the output is what it was before, so is the answer.

The proof follows the *window* of a trace: the last recovery and what was staged since.
`Inv` lists the four situations a window can be in, and each step leads from one to
another.
-/

namespace Egressfox.Lib.TwoSlot

variable {S R : Type}

/-- The durable slots. -/
structure Slots (S R : Type) where
  pending : Option (S × R)
  committed : Option (S × R)

/-- The committed value, if it belongs to the current receipt. -/
def answer [DecidableEq R] (committed : Option (S × R)) (current : Option R) : Option S :=
  match committed with
  | none => none
  | some (s, r) => if some r = current then some s else none

/-- Stage a value with the receipt its output will have. -/
def Slots.stage (slots : Slots S R) (s : S) (r : R) : Slots S R :=
  { slots with pending := some (s, r) }

/-- Promote the pending value if it was staged with the given receipt. -/
def Slots.commit [DecidableEq R] (slots : Slots S R) (r : R) : Option (Slots S R) :=
  match slots.pending with
  | none => none
  | some (s, r') => if r' = r then some ⟨none, some (s, r')⟩ else none

/-- Promote or discard the pending value, whichever the current receipt says. -/
def Slots.settle [DecidableEq R] (slots : Slots S R) (current : Option R) : Slots S R :=
  match slots.pending with
  | none => slots
  | some (s, r) => if some r = current then ⟨none, some (s, r)⟩ else ⟨none, slots.committed⟩

section Settle

variable [DecidableEq R] {slots : Slots S R} {current : Option R} {s : S} {r : R}

@[simp] theorem Slots.settle_pending : (slots.settle current).pending = none := by
  unfold Slots.settle
  cases hpending : slots.pending with
  | none => exact hpending
  | some pair => dsimp only; split_ifs <;> rfl

/-- Settling brings in no pair that was in neither slot. -/
theorem Slots.settle_committed (h : (slots.settle current).committed = some (s, r)) :
    slots.pending = some (s, r) ∨ slots.committed = some (s, r) := by
  unfold Slots.settle at h
  cases hpending : slots.pending with
  | none =>
    rw [hpending] at h
    exact .inr h
  | some pair =>
    rw [hpending] at h
    dsimp only at h
    split_ifs at h
    · exact .inl h
    · exact .inr h

/-- Committing promotes the pending pair. -/
theorem Slots.commit_eq_some {slots' : Slots S R} (h : slots.commit r = some slots') :
    ∃ s, slots.pending = some (s, r) ∧ slots' = ⟨none, some (s, r)⟩ := by
  unfold Slots.commit at h
  cases hpending : slots.pending with
  | none => simp [hpending] at h
  | some pair =>
    obtain ⟨s, r'⟩ := pair
    rw [hpending] at h
    dsimp only at h
    split_ifs at h with hr
    subst hr
    exact ⟨s, rfl, (Option.some.inj h).symm⟩

end Settle

/-- Where the process stands. -/
inductive Phase (R : Type) where
  /-- Between two rounds, or crashed. -/
  | idle
  /-- Recovered, nothing staged yet. -/
  | planning
  /-- Staged, not yet written. -/
  | publishing (r : R)
  /-- Written, as reported. -/
  | reading (r : R)
  /-- Read back. -/
  | committing (r : R)

structure Sys (S R : Type) where
  slots : Slots S R
  output : Option R
  phase : Phase R

inductive Event (S R : Type) where
  | recover (current : Option R) (result : Option S)
  | stage (s : S) (r : R)
  | publish (r : R) (written reported : Bool)
  | readBack (r : R)
  | commit (r : R)
  /-- A crash, an error, or the end of a round. -/
  | stop

variable {start sys sys' : Sys S R} {s : S} {r : R} {trace : List (Event S R)}

section Step

variable [DecidableEq R]

/-- One step of the process. -/
inductive Step : Sys S R → Event S R → Sys S R → Prop where
  | recover {slots : Slots S R} {output : Option R} :
      Step ⟨slots, output, .idle⟩
        (.recover output (answer (slots.settle output).committed output))
        ⟨slots.settle output, output, .planning⟩
  | stage {slots : Slots S R} {output : Option R} {s : S} {r : R} :
      Step ⟨slots, output, .planning⟩ (.stage s r) ⟨slots.stage s r, output, .publishing r⟩
  | publish {slots : Slots S R} {output : Option R} {r : R} {written reported : Bool} :
      Step ⟨slots, output, .publishing r⟩ (.publish r written reported)
        ⟨slots, if written then some r else output, if reported then .reading r else .idle⟩
  | readBack {slots : Slots S R} {r : R} :
      Step ⟨slots, some r, .reading r⟩ (.readBack r) ⟨slots, some r, .committing r⟩
  | commit {slots slots' : Slots S R} {output : Option R} {r : R} :
      slots.commit r = some slots' →
      Step ⟨slots, output, .committing r⟩ (.commit r) ⟨slots', output, .idle⟩
  | stop {slots : Slots S R} {output : Option R} {phase : Phase R} :
      Step ⟨slots, output, phase⟩ .stop ⟨slots, output, .idle⟩

/-- A run, with the events in order. -/
inductive Run (start : Sys S R) : List (Event S R) → Sys S R → Prop where
  | nil : Run start [] start
  | snoc {trace : List (Event S R)} {sys sys' : Sys S R} {event : Event S R} :
      Run start trace sys → Step sys event sys' → Run start (trace ++ [event]) sys'

/-- Any event of a run is a step, from a state that a run leads to. -/
theorem Run.split {last : Sys S R} {pre post : List (Event S R)} {event : Event S R}
    (h : Run start (pre ++ event :: post) last) :
    ∃ sys sys', Run start pre sys ∧ Step sys event sys' := by
  induction post using List.reverseRecOn generalizing last with
  | nil =>
    generalize htrace : pre ++ [event] = trace at h
    cases h with
    | nil => simp at htrace
    | @snoc trace sys _ e hrun hstep =>
      obtain ⟨rfl, he⟩ := List.append_inj' htrace rfl
      obtain rfl := List.singleton_inj.mp he
      exact ⟨sys, last, hrun, hstep⟩
  | append_singleton post e ih =>
    generalize htrace : pre ++ event :: (post ++ [e]) = trace at h
    cases h with
    | nil => simp at htrace
    | @snoc trace sys _ e' hrun hstep =>
      have heq : pre ++ event :: post ++ [e] = trace ++ [e'] := by simpa using htrace
      obtain ⟨rfl, -⟩ := List.append_inj' heq rfl
      exact ih hrun

end Step

/-! ## What is promised -/

/-- Neither a recovery nor a staging. -/
def Event.Quiet : Event S R → Prop
  | .recover _ _ => False
  | .stage _ _ => False
  | _ => True

/-- The crash safety of a trace. -/
structure CrashSafe (trace : List (Event S R)) : Prop where
  /-- What is returned was staged with the current receipt. -/
  sound : ∀ {pre post : List (Event S R)} {current : Option R} {s : S},
    trace = pre ++ .recover current (some s) :: post → ∃ r, current = some r ∧ .stage s r ∈ pre
  /-- The pair staged last is returned if its receipt is current. -/
  staged : ∀ {pre mid post : List (Event S R)} {s : S} {r : R} {result : Option S},
    trace = pre ++ .stage s r :: (mid ++ .recover (some r) result :: post) →
    (∀ e ∈ mid, e.Quiet) → result = some s
  /-- With the receipt the last recovery saw, and not that of the pair staged since, the
  answer is the same as then. -/
  unchanged : ∀ {pre mid mid' post : List (Event S R)} {current : Option R}
    {result result' : Option S} {s : S} {r : R},
    trace = pre ++ .recover current result ::
      (mid ++ .stage s r :: (mid' ++ .recover current result' :: post)) →
    (∀ e ∈ mid, e.Quiet) → (∀ e ∈ mid', e.Quiet) → current ≠ some r → result' = result

/-! ## Windows -/

/-- The last recovery of a trace, and the pair staged since. -/
inductive Window (S R : Type) where
  | initial
  | recovered (current : Option R) (result : Option S)
  | staged (current : Option R) (result : Option S) (s : S) (r : R)

/-- How an event moves the window. -/
def Window.next : Window S R → Event S R → Window S R
  | _, .recover current result => .recovered current result
  | .recovered current result, .stage s r => .staged current result s r
  | w, _ => w

/-- The window of a trace. -/
def window (trace : List (Event S R)) : Window S R := trace.foldl Window.next .initial

theorem window_append (pre post : List (Event S R)) :
    window (pre ++ post) = post.foldl Window.next (window pre) := List.foldl_append

theorem Window.foldl_quiet {mid : List (Event S R)} (h : ∀ e ∈ mid, e.Quiet) (w : Window S R) :
    mid.foldl Window.next w = w := by
  induction mid generalizing w with
  | nil => rfl
  | cons e mid ih =>
    have he : w.next e = w := by
      have hquiet := h e (by simp)
      cases e with
      | recover current result | stage s r => exact hquiet.elim
      | publish r written reported | readBack r | commit r | stop => cases w <;> rfl
    rw [List.foldl_cons, he]
    exact ih (fun e' he' => h e' (by simp [he'])) w

section Invariant

variable [DecidableEq R]

/-- The situations a window can be in. -/
inductive Inv : Window S R → Sys S R → Prop where
  | /-- Nothing has happened yet. -/
    initial {output : Option R} : Inv .initial ⟨⟨none, none⟩, output, .idle⟩
  | /-- Nothing is pending, and the output is the one the recovery saw. -/
    recovered {current : Option R} {committed : Option (S × R)} {phase : Phase R} :
      phase = .idle ∨ phase = .planning →
      Inv (.recovered current (answer committed current)) ⟨⟨none, committed⟩, current, phase⟩
  | /-- A pair is pending; its write may have taken effect. -/
    staged {current output : Option R} {committed : Option (S × R)} {s : S} {r : R}
      {phase : Phase R} :
      output = current ∨ output = some r →
      phase = .idle ∨ phase = .publishing r ∨ phase = .reading r ∨
        phase = .committing r ∧ output = some r →
      Inv (.staged current (answer committed current) s r)
        ⟨⟨some (s, r), committed⟩, output, phase⟩
  | /-- The pair has been committed. -/
    promoted {current : Option R} {result : Option S} {s : S} {r : R} :
      Inv (.staged current result s r) ⟨⟨none, some (s, r)⟩, some r, .idle⟩

theorem answer_self : answer (some (s, r)) (some r) = some s := by simp [answer]

/-- **Every step leads from one situation to another.** -/
theorem Inv.step {w : Window S R} {event : Event S R} (h : Inv w sys) (hstep : Step sys event sys')
    : Inv (w.next event) sys' := by
  cases hstep with
  | @recover slots output =>
    -- whatever the situation, nothing is pending afterwards
    have hsettled : slots.settle output = ⟨none, (slots.settle output).committed⟩ := by
      rw [← Slots.settle_pending]
    have hnext : w.next (.recover output (answer (slots.settle output).committed output)) =
        .recovered output (answer (slots.settle output).committed output) := by
      cases w <;> rfl
    rw [hnext, hsettled]
    exact .recovered (.inr rfl)
  | stage =>
    cases h with
    | recovered _ => exact .staged (.inl rfl) (.inr (.inl rfl))
    | staged _ hphase => simp at hphase
  | @publish slots output r written reported =>
    cases h with
    | recovered hphase => simp at hphase
    | @staged current _ committed s r' _ hout hphase =>
      obtain rfl : r = r' := by simpa using hphase
      refine .staged ?_ ?_
      · cases written with
        | true => exact .inr rfl
        | false => exact hout
      · cases reported with
        | true => exact .inr (.inr (.inl rfl))
        | false => exact .inl rfl
  | readBack =>
    cases h with
    | recovered hphase => simp at hphase
    | staged hout hphase =>
      obtain rfl := by simpa using hphase
      exact .staged hout (.inr (.inr (.inr ⟨rfl, rfl⟩)))
  | @commit slots slots' output r hcommit =>
    cases h with
    | recovered hphase => simp at hphase
    | @staged current _ committed s r' _ hout hphase =>
      obtain ⟨rfl, rfl⟩ : r = r' ∧ output = some r' := by simpa using hphase
      obtain ⟨s', hpending, rfl⟩ := Slots.commit_eq_some hcommit
      obtain ⟨rfl, -⟩ := Prod.mk.inj (Option.some.inj hpending)
      exact .promoted
  | stop =>
    cases h with
    | initial => exact .initial
    | recovered _ => exact .recovered (.inl rfl)
    | staged hout _ => exact .staged hout (.inl rfl)
    | promoted => exact .promoted

/-- A process that starts with empty slots. -/
def Sys.Fresh (sys : Sys S R) : Prop := sys.slots = ⟨none, none⟩ ∧ sys.phase = .idle

theorem Run.inv (hfresh : start.Fresh) (h : Run start trace sys) : Inv (window trace) sys := by
  induction h with
  | nil =>
    obtain ⟨slots, output, phase⟩ := start
    obtain ⟨rfl, rfl⟩ := hfresh
    exact .initial
  | snoc _ hstep ih =>
    rw [window_append]
    exact ih.step hstep

/-- Every pair in a slot was staged. -/
theorem Run.staged_of_slot (hfresh : start.Fresh) (h : Run start trace sys)
    (hslot : sys.slots.pending = some (s, r) ∨ sys.slots.committed = some (s, r)) :
    .stage s r ∈ trace := by
  induction h with
  | nil => simp [hfresh.1] at hslot
  | @snoc trace sys sys' event _ hstep ih =>
    rw [List.mem_append, List.mem_singleton]
    cases hstep with
    | recover =>
      refine .inl (ih ?_)
      rcases hslot with hslot | hslot
      · rw [Slots.settle_pending] at hslot
        cases hslot
      · exact Slots.settle_committed hslot
    | @stage slots output s' r' =>
      rcases hslot with hslot | hslot
      · obtain ⟨rfl, rfl⟩ : s' = s ∧ r' = r := by simpa [Slots.stage] using hslot
        exact .inr rfl
      · exact .inl (ih (.inr hslot))
    | publish | readBack | stop => exact .inl (ih hslot)
    | commit hcommit =>
      obtain ⟨s', hpending, rfl⟩ := Slots.commit_eq_some hcommit
      refine .inl (ih (.inl ?_))
      rcases hslot with hslot | hslot
      · cases hslot
      · exact hpending.trans hslot

/-- What a recovery answers when a pair has been staged since the last one. -/
theorem Inv.recover {current : Option R} {result : Option S} {seen : Option R} {answered : Option S}
    (h : Inv (.staged current result s r) sys) (hstep : Step sys (.recover seen answered) sys') :
    (seen = some r → answered = some s) ∧ (seen = current → current ≠ some r →
      answered = result) := by
  cases hstep with
  | recover =>
    cases h with
    | promoted =>
      refine ⟨fun _ => answer_self, fun hseen hne => absurd hseen.symm hne⟩
    | @staged _ _ committed _ _ _ _ _ =>
      constructor
      · rintro rfl
        simp only [Slots.settle, if_pos]
        exact answer_self
      · rintro rfl hne
        simp only [Slots.settle, if_neg hne.symm]

/-- A pair is staged right after a recovery. -/
theorem Inv.stage {w : Window S R} (h : Inv w sys) (hstep : Step sys (.stage s r) sys') :
    ∃ current result, w = .recovered current result := by
  cases hstep with
  | stage =>
    cases h with
    | recovered _ => exact ⟨_, _, rfl⟩
    | staged _ hphase => simp at hphase

/-- **Every run from empty slots is crash safe.** -/
theorem Run.crashSafe (hfresh : start.Fresh) (h : Run start trace sys) : CrashSafe trace where
  sound := by
    rintro pre post current s rfl
    obtain ⟨before, after, hrun, hstep⟩ := h.split
    generalize hevent : Event.recover current (some s) = event at hstep
    cases hstep with
    | @recover slots output =>
      obtain ⟨rfl, hanswer⟩ := Event.recover.inj hevent
      cases hcommitted : (slots.settle current).committed with
      | none => simp [hcommitted, answer] at hanswer
      | some pair =>
        obtain ⟨s', r⟩ := pair
        rw [hcommitted, answer] at hanswer
        split_ifs at hanswer with hr
        obtain rfl := Option.some.inj hanswer
        exact ⟨r, hr.symm, hrun.staged_of_slot hfresh (Slots.settle_committed hcommitted)⟩
    | _ => cases hevent
  staged := by
    rintro pre mid post s r result rfl hmid
    obtain ⟨before, after, hrun, hstage⟩ := h.split
    obtain ⟨current, seen, hwindow⟩ := (hrun.inv hfresh).stage hstage
    have hrest :
        Run start ((pre ++ .stage s r :: mid) ++ .recover (some r) result :: post) sys := by
      simpa using h
    obtain ⟨before', after', hrun', hrecover⟩ := hrest.split
    have hinv := hrun'.inv hfresh
    rw [window_append, hwindow, List.foldl_cons, Window.foldl_quiet hmid] at hinv
    exact (hinv.recover hrecover).1 rfl
  unchanged := by
    rintro pre mid mid' post current result result' s r rfl hmid hmid' hne
    have hrest : Run start ((pre ++ .recover current result :: (mid ++ .stage s r :: mid')) ++
        .recover current result' :: post) sys := by
      simpa using h
    obtain ⟨before, after, hrun, hrecover⟩ := hrest.split
    have hinv := hrun.inv hfresh
    have hwindow : window (pre ++ .recover current result :: (mid ++ .stage s r :: mid')) =
        .staged current result s r := by
      rw [window_append, List.foldl_cons, List.foldl_append, List.foldl_cons,
        Window.foldl_quiet hmid, Window.foldl_quiet hmid']
      cases window pre <;> rfl
    rw [hwindow] at hinv
    exact (hinv.recover hrecover).2 rfl hne

end Invariant

end Egressfox.Lib.TwoSlot
