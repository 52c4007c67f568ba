import Egressfox.Selection.Model

/-!
# What a successful `Select` has checked

Everything before `conclude` is a guard or an evaluation.  `select_eq_ok_iff` says
once what those guards are, and `Surveyed` what is known of the evaluated candidates:
they are strictly increasing in identity and each carries the reference of its
identity, with a revision.  The lookups by reference and by map key are then lookups
by identity.
-/

namespace Egressfox.Selection

open Lib Endpoint Observation

variable {R : Type} {P : Primitives R}

/-! ## References -/

/-- The reference of an identity. -/
def refOf (identity : Identity) : ConnectionRef := ⟨identity.id, identity.revision⟩

theorem refOf_injective : Function.Injective refOf := by
  rintro ⟨id, revision⟩ ⟨id', revision'⟩ h
  obtain ⟨rfl, rfl⟩ := ConnectionRef.mk.inj h
  rfl

/-- The references `NewConnectionRef` creates. -/
def ValidRef (ref : ConnectionRef) : Prop := ref.revision.isSome ∧ ref.id.string ≠ invalidID

section

variable {ref : ConnectionRef} {context : Context} {policy : Policy} {now : Time}
  {candidates : List (Candidate R)} {l : List (Ranked R)} {value : Ranked R}

theorem newConnectionRef_eq_ok {identity : Identity} :
    newConnectionRef identity = .ok ref ↔ ref = refOf identity ∧ ValidRef (refOf identity) :=
  newConnectionRef_eq_ok_iff

theorem ValidRef.string_eq (h : ValidRef ref) : ref.id.string = ref.id.value := by
  unfold ID.string
  split
  · rename_i hnil
    exact absurd (by simp [ID.string, hnil]) h.2
  · rfl

/-- The map key of a valid reference determines it: the last 32 bytes are the revision. -/
theorem refKey_inj {left right : ConnectionRef} (hl : ValidRef left) (hr : ValidRef right)
    (h : refKey left = refKey right) : left = right := by
  have hsl := hl.string_eq
  have hsr := hr.string_eq
  obtain ⟨⟨lid⟩, _ | l⟩ := left
  · exact absurd hl.1 (by simp)
  obtain ⟨⟨rid⟩, _ | r⟩ := right
  · exact absurd hr.1 (by simp)
  simp only [refKey, hsl, hsr, Option.map_some, Option.getD_some] at h
  obtain ⟨rfl, hrev⟩ := List.append_inj' h (l.property.trans r.property.symm)
  rw [Subtype.ext hrev]

theorem equal_self_of_valid (h : ValidRef ref) : ref.equal ref = true :=
  ConnectionRef.equal_iff.mpr ⟨rfl, h.1⟩

/-! ## Lookups -/

theorem findMember_fst_iff {values : List Member} :
    (findMember values ref).1 = true ↔ ∃ value ∈ values, value.connection.equal ref = true := by
  unfold findMember
  cases h : values.find? fun value => value.connection.equal ref with
  | none =>
    have hnone := List.find?_eq_none.mp h
    simpa using hnone
  | some value =>
    exact iff_of_true rfl ⟨value, List.mem_of_find?_eq_some h, by simpa using List.find?_some h⟩

theorem findRanked_some {values : List (Ranked R)} {entry : Ranked R}
    (h : findRanked values ref = some entry) : entry ∈ values ∧ entry.ref = ref := by
  have heq : entry.ref.equal ref = true := by simpa using List.find?_some h
  exact ⟨List.mem_of_find?_eq_some h, (ConnectionRef.equal_iff.mp heq).1⟩

theorem containsRanked_iff {values : List (Ranked R)} (href : ValidRef ref) :
    containsRanked values ref = true ↔ ∃ value ∈ values, value.ref = ref := by
  unfold containsRanked findRanked
  rw [List.find?_isSome]
  constructor
  · rintro ⟨value, hmem, heq⟩
    exact ⟨value, hmem, (ConnectionRef.equal_iff.mp heq).1⟩
  · rintro ⟨value, hmem, rfl⟩
    exact ⟨value, hmem, equal_self_of_valid href⟩

/-! ## The evaluated candidates -/

/-- The evaluation of one candidate, given what is carried over. -/
def assess (P : Primitives R) (context : Context) (policy : Policy) (members : List Member)
    (cooldowns : List Cooldown) (now : Time) (candidate : Candidate R) : Ranked R :=
  let ref := refOf (P.identity candidate.record)
  let incumbent := findMember members ref
  ⟨candidate, ref,
    evaluate P candidate ref context policy cooldowns incumbent.1 incumbent.2 now⟩

theorem survey_eq_ok_iff {members : List Member} {cooldowns : List Cooldown}
    {surveyed : List (Ranked R)} :
    survey P context policy members cooldowns now candidates = .ok surveyed ↔
      (∀ candidate ∈ candidates, ValidRef (refOf (P.identity candidate.record))) ∧
        surveyed = candidates.map (assess P context policy members cooldowns now) := by
  induction candidates generalizing surveyed with
  | nil => simp [survey, eq_comm]
  | cons candidate rest ih =>
    rw [survey]
    by_cases hvalid : ValidRef (refOf (P.identity candidate.record))
    · have href := newConnectionRef_eq_ok.mpr ⟨rfl, hvalid⟩
      simp only [href]
      cases hrest : survey P context policy members cooldowns now rest with
      | error message =>
        have hno : ¬ ∀ c ∈ rest, ValidRef (refOf (P.identity c.record)) := by
          intro hall
          have := ih.mpr ⟨hall, rfl⟩
          rw [hrest] at this
          exact absurd this (by simp)
        simp only [reduceCtorEq, List.forall_mem_cons, false_iff, not_and]
        exact fun h => absurd h.2 hno
      | ok tail =>
        obtain ⟨hall, rfl⟩ := ih.mp hrest
        simp only [Except.ok.injEq, List.map_cons, List.forall_mem_cons]
        exact ⟨fun h => ⟨⟨hvalid, hall⟩, h.symm⟩, fun h => h.2.symm⟩
    · have herr : ∃ message, newConnectionRef (P.identity candidate.record) = .error message := by
        cases h : newConnectionRef (P.identity candidate.record) with
        | error message => exact ⟨message, rfl⟩
        | ok ref => exact absurd (newConnectionRef_eq_ok.mp h).2 hvalid
      obtain ⟨message, herr⟩ := herr
      simp [herr, hvalid]

/-- What is known of the evaluated candidates. -/
structure Surveyed (P : Primitives R) (surveyed : List (Ranked R)) : Prop where
  /-- Each carries the reference of its identity. -/
  ref_eq : ∀ value ∈ surveyed, value.ref = refOf (P.identity value.candidate.record)
  /-- Each reference is valid. -/
  valid : ∀ value ∈ surveyed, ValidRef value.ref
  /-- They are strictly increasing in identity. -/
  sorted : surveyed.Pairwise fun left right =>
    P.identity left.candidate.record < P.identity right.candidate.record

namespace Surveyed

variable {surveyed : List (Ranked R)}

/-- Different candidates have different references. -/
theorem ref_injOn (h : Surveyed P surveyed) {left right : Ranked R} (hl : left ∈ surveyed)
    (hr : right ∈ surveyed) (href : left.ref = right.ref) : left = right := by
  have hid : P.identity left.candidate.record = P.identity right.candidate.record := by
    rw [h.ref_eq left hl, h.ref_eq right hr] at href
    exact refOf_injective href
  by_contra hne
  rcases List.pairwise_iff_getElem.mp h.sorted with hsorted
  obtain ⟨i, hi, rfl⟩ := List.mem_iff_getElem.mp hl
  obtain ⟨j, hj, rfl⟩ := List.mem_iff_getElem.mp hr
  rcases lt_trichotomy i j with hij | rfl | hij
  · exact absurd hid (ne_of_lt (hsorted i j hi hj hij))
  · exact hne rfl
  · exact absurd hid (ne_of_gt (hsorted j i hj hi hij))

theorem nodup (h : Surveyed P surveyed) : surveyed.Nodup :=
  h.sorted.imp fun {_ _} hlt heq => absurd (congrArg (P.identity ·.candidate.record) heq) hlt.ne

/-- Membership is what `containsRanked` tests, for entries of the survey. -/
theorem containsRanked_iff_mem (h : Surveyed P surveyed) (hl : ∀ value ∈ l, value ∈ surveyed)
    (hv : value ∈ surveyed) :
    containsRanked l value.ref = true ↔ value ∈ l := by
  rw [containsRanked_iff (h.valid value hv)]
  constructor
  · rintro ⟨other, hmem, href⟩
    exact h.ref_injOn (hl other hmem) hv href ▸ hmem
  · exact fun hmem => ⟨value, hmem, rfl⟩

/-- Looking up the reference of a surveyed entry finds the entry, or it is not there. -/
theorem findRanked_ref (h : Surveyed P surveyed) (hl : ∀ value ∈ l, value ∈ surveyed)
    (hv : value ∈ l) :
    findRanked l value.ref = some value := by
  have hcontains : containsRanked l value.ref = true :=
    (h.containsRanked_iff_mem hl (hl value hv)).mpr hv
  obtain ⟨entry, hentry⟩ := Option.isSome_iff_exists.mp hcontains
  obtain ⟨hmem, href⟩ := findRanked_some hentry
  rw [hentry, h.ref_injOn (hl entry hmem) (hl value hv) href]

/-- The reason recorded for a surveyed entry is its own. -/
theorem reasonOf_ref (h : Surveyed P surveyed) (hv : value ∈ surveyed) :
    reasonOf surveyed value.ref = some value.explanation.reason := by
  unfold reasonOf
  cases hf : surveyed.find? fun other => decide (refKey other.ref = refKey value.ref) with
  | none => exact absurd (List.find?_eq_none.mp hf value hv) (by simp)
  | some other =>
    have hmem := List.mem_of_find?_eq_some hf
    have hkey : refKey other.ref = refKey value.ref := by simpa using List.find?_some hf
    have href := refKey_inj (h.valid other hmem) (h.valid value hv) hkey
    rw [Option.map_some, h.ref_injOn hmem hv href]

end Surveyed

/-! ## Sorting the candidates -/

theorem hasDuplicate_eq_false_iff :
    hasDuplicate P candidates = false ↔
      candidates.IsChain fun left right => P.identity left.record ≠ P.identity right.record := by
  induction candidates with
  | nil => simp [hasDuplicate]
  | cons first rest ih =>
    cases rest with
    | nil => simp [hasDuplicate]
    | cons second rest =>
      rw [List.isChain_cons_cons, ← ih, hasDuplicate, Bool.or_eq_false_iff,
        ← Bool.not_eq_true, Identity.equal_iff]

theorem lessIdentity_iff (left right : Candidate R) :
    decide ((P.identity left.record).compare (P.identity right.record) = .lt) = true ↔
      P.identity left.record < P.identity right.record := by
  rw [decide_eq_true_iff, Identity.compare_eq_lt_iff]

/-- The sorted candidates pass the duplicate check exactly when their identities are
pairwise distinct. -/
theorem hasDuplicate_orderCandidates :
    hasDuplicate P (orderCandidates P candidates) = false ↔
      (candidates.map fun candidate => P.identity candidate.record).Nodup := by
  have hperm := (sortSlice_perm (fun left right : Candidate R =>
    decide ((P.identity left.record).compare (P.identity right.record) = .lt)) candidates).map
      fun candidate => P.identity candidate.record
  rw [hasDuplicate_eq_false_iff, ← hperm.nodup_iff]
  constructor
  · intro hchain
    exact List.pairwise_map.mpr ((pairwise_lt_of_isChain_ne
      (sortSlice_pairwise_le lessIdentity_iff candidates) hchain).imp ne_of_lt)
  · intro hnodup
    exact List.Pairwise.isChain (List.pairwise_map.mp hnodup)

/-! ## The guards of `Select` -/

/-- What `Select` has checked and computed when it reaches `conclude`. -/
structure Accepted (P : Primitives R) (scope : Bytes) (context : Context) (policy : Policy)
    (candidates : List (Candidate R)) (previous : Option State) (now : Time)
    (surveyed : List (Ranked R)) : Prop where
  scope_safe : safeScope scope = true
  now_ne : now ≠ 0
  policy_valid : policy.validate = .ok ()
  /-- Time has not gone back since the usable previous state. -/
  not_older : ∀ state ∈ carried P scope context policy previous, state.evaluatedAt ≤ now
  /-- No identity occurs twice. -/
  distinct : (candidates.map fun candidate => P.identity candidate.record).Nodup
  /-- Every identity is valid. -/
  valid : ∀ candidate ∈ candidates, ValidRef (refOf (P.identity candidate.record))
  surveyed_eq : surveyed = (orderCandidates P candidates).map
    (assess P context policy (previousMembers (carried P scope context policy previous))
      (previousCooldowns (carried P scope context policy previous)) now)

theorem any_older_eq_false {usable : Option State} :
    (usable.any fun state => decide (now < state.evaluatedAt)) = false ↔
      ∀ state ∈ usable, state.evaluatedAt ≤ now := by
  cases usable <;> simp

/-- **`Select` succeeds** exactly when its guards pass, with the concluded decision. -/
theorem select_eq_ok_iff {scope : Bytes} {previous : Option State} {decision : Decision R} :
    select P scope context policy candidates previous now = .ok decision ↔
      ∃ surveyed, Accepted P scope context policy candidates previous now surveyed ∧
        decision = conclude P scope context policy previous
          (carried P scope context policy previous) now surveyed := by
  have hmem : ∀ candidate, candidate ∈ orderCandidates P candidates ↔ candidate ∈ candidates :=
    fun _ => mem_sortSlice
  constructor
  · intro h
    simp only [select, bind, Except.bind, throw, throwThe, MonadExceptOf.throw, pure,
      Except.pure] at h
    split at h
    · cases h
    rename_i hguard
    split at h
    · cases h
    rename_i hpolicy
    split at h
    · cases h
    rename_i holder
    split at h
    · cases h
    rename_i hdup
    split at h
    · cases h
    rename_i surveyed hsurvey
    obtain ⟨hscope, hnow⟩ : safeScope scope = true ∧ now ≠ 0 := by simpa using hguard
    obtain ⟨hvalid, hsurveyed⟩ := survey_eq_ok_iff.mp hsurvey
    refine ⟨surveyed, ⟨hscope, hnow, hpolicy, ?_, ?_, ?_, hsurveyed⟩, by simpa using h.symm⟩
    · exact any_older_eq_false.mp (by simpa using holder)
    · exact hasDuplicate_orderCandidates.mp (by simpa using hdup)
    · exact fun candidate hc => hvalid candidate ((hmem candidate).mpr hc)
  · rintro ⟨surveyed, h, rfl⟩
    have hdup := hasDuplicate_orderCandidates.mpr h.distinct
    have hsurvey := survey_eq_ok_iff.mpr
      ⟨fun candidate hc => h.valid candidate ((hmem candidate).mp hc), h.surveyed_eq⟩
    simp [select, h.scope_safe, h.now_ne, h.policy_valid, any_older_eq_false.mpr h.not_older,
      hdup, hsurvey, bind, Except.bind, pure, Except.pure]

/-- The evaluated candidates of an accepted call are well formed. -/
theorem Accepted.wellSurveyed {scope : Bytes} {previous : Option State} {surveyed : List (Ranked R)}
    (h : Accepted P scope context policy candidates previous now surveyed) :
    Surveyed P surveyed := by
  have hmem : ∀ value ∈ surveyed, ∃ candidate ∈ candidates, value =
      assess P context policy (previousMembers (carried P scope context policy previous))
        (previousCooldowns (carried P scope context policy previous)) now candidate := by
    intro value hv
    rw [h.surveyed_eq] at hv
    obtain ⟨candidate, hc, rfl⟩ := List.mem_map.mp hv
    exact ⟨candidate, mem_sortSlice.mp hc, rfl⟩
  refine ⟨fun value hv => ?_, fun value hv => ?_, ?_⟩
  · obtain ⟨candidate, -, rfl⟩ := hmem value hv
    rfl
  · obtain ⟨candidate, hc, rfl⟩ := hmem value hv
    exact h.valid candidate hc
  · rw [h.surveyed_eq, List.pairwise_map]
    exact sortSlice_pairwise_lt lessIdentity_iff h.distinct

end

/-! ## A small instance

Records that are their own identities, for evaluating decisions on concrete
candidates. -/

namespace Sample

def digest (code : Byte) : Digest := ⟨code :: List.replicate 31 0, rfl⟩

def identity (code : Byte) : Identity := ⟨⟨[code]⟩, some (digest code)⟩

def primitives (wilsonLower : Int → Int → Int) : Primitives Identity :=
  ⟨id, fun _ => digest 1, wilsonLower⟩

def scope : Bytes := ascii "sample"

def context : Context :=
  ⟨⟨ascii "target", some (digest 2)⟩, ascii "vantage", .httpGet, Artifact.singBox1141⟩

/-- A candidate with fresh evidence. -/
def candidate (code : Byte) (samples successes : Int) (mean : Duration)
    (consecutiveSuccesses consecutiveFailures : Int) : Candidate Identity :=
  ⟨identity code, some
    { key := ⟨refOf (identity code), context.target, context.vantage, context.kind,
        context.profile⟩
      samples := samples
      successes := successes
      meanSuccessDuration := mean
      consecutiveSuccesses := consecutiveSuccesses
      consecutiveFailures := consecutiveFailures
      fresh := true }⟩

def policy : Policy := { defaultPolicy .adaptive with topN := 2 }

/-- A state with the given members and no cooldown. -/
def state (evaluatedAt : Time) (members : List Member) : State :=
  ⟨scope, context, digest 1, evaluatedAt, members, []⟩

/-- The decision on candidates that pass every guard. -/
def conclusion (P : Primitives Identity) (candidates : List (Candidate Identity))
    (previous : Option State) (now : Time) : Decision Identity :=
  let usable := carried P scope context policy previous
  conclude P scope context policy previous usable now
    ((orderCandidates P candidates).map
      (assess P context policy (previousMembers usable) (previousCooldowns usable) now))

end Sample

/-! ## The order of the candidates -/

/-- **`Select` does not depend on the order of the candidates**: the same error, or
equal decisions.  Sorting by identity forgets the order as soon as identities are
distinct, and when they are not, both calls fail the duplicate check. -/
theorem select_eq_of_perm (P : Primitives R) (scope : Bytes) (context : Context) (policy : Policy)
    (previous : Option State) (now : Time) {candidates candidates' : List (Candidate R)}
    (h : candidates.Perm candidates') :
    select P scope context policy candidates previous now =
      select P scope context policy candidates' previous now := by
  have hnodup := (h.map fun candidate => P.identity candidate.record).nodup_iff
  by_cases hdistinct : (candidates.map fun candidate => P.identity candidate.record).Nodup
  · have hordered : orderCandidates P candidates = orderCandidates P candidates' :=
      sortSlice_eq_of_perm lessIdentity_iff hdistinct h
    unfold select
    rw [hordered]
  · have hdup : hasDuplicate P (orderCandidates P candidates) = true := by
      rw [← Bool.not_eq_false, hasDuplicate_orderCandidates]
      exact hdistinct
    have hdup' : hasDuplicate P (orderCandidates P candidates') = true := by
      rw [← Bool.not_eq_false, hasDuplicate_orderCandidates, ← hnodup]
      exact hdistinct
    unfold select
    simp only [hdup, hdup', if_true]
    -- the survey is never reached
    rfl

theorem Sample.select_eq_of_swap :
    select (primitives fun _ _ => 500000) scope context policy
        [candidate 6 10 8 20000000 3 0, candidate 5 10 9 30000000 3 0] none 2000 =
      select (primitives fun _ _ => 500000) scope context policy
        [candidate 5 10 9 30000000 3 0, candidate 6 10 8 20000000 3 0] none 2000 :=
  select_eq_of_perm _ _ _ _ _ _ (List.Perm.swap ..)

end Egressfox.Selection
