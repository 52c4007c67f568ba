import Egressfox.Observation.New

/-!
# Evidence summaries

`Summarize` of `internal/observation/summary.go`: the observations of one key completed in
a window are sorted by completion time and sample ID, counted by a loop forwards, and the
streak at their end is measured by a loop backwards.

`Describes` says what a summary is for, as a statement about the sorted window `W` alone.
The window is determined by the *set* of observations as soon as their sample IDs are
distinct, and so is everything described by it.

The total of the success durations is an `int64` and wraps around.  It takes more than 76
million observations of two minutes to get there.
-/

namespace Egressfox.Observation

open Lib Endpoint Checkpoint

/-- `observation.Summary` with the fields that planning does not read. -/
structure FullSummary extends Summary where
  successRatio : Float
  latest : Option Observation
  latestSuccess : Option Observation

/-- `Observation.Successful`. -/
def successful (value : Observation) : Bool := value.outcome = .success

/-- `sameKey`. -/
def sameKey (left right : Key) : Bool :=
  left.connection.equal right.connection && left.target.equal right.target &&
    decide (left.vantage = right.vantage) && decide (left.kind = right.kind) &&
    decide (left.profile = right.profile)

/-- The observation is completed between the cutoff and now, both included. -/
def within (cutoff now : Time) (value : Observation) : Bool :=
  !(decide (value.completedAt < cutoff) || decide (value.completedAt > now))

/-- The first loop of `Summarize`. -/
def filtered (key : Key) (cutoff now : Time) : List Observation → Except String (List Observation)
  | [] => .ok []
  | value :: rest =>
    if !sameKey key value.key then .error "summary input contains a different evidence key"
    else do
      let kept ← filtered key cutoff now rest
      return if within cutoff now value then value :: kept else kept

variable (sum256 : Bytes → Digest)

/-- The comparison `Summarize` sorts by. -/
def lessObservation (left right : Observation) : Bool :=
  if left.completedAt ≠ right.completedAt then left.completedAt < right.completedAt
  else bytesCompare (observationDigest sum256 left).val (observationDigest sum256 right).val = .lt

/-- What the forward loop accumulates. -/
structure Tally where
  successes : Int := 0
  total : Duration := 0
  latestSuccess : Option Observation := none

/-- One turn of the forward loop. -/
def Tally.step (tally : Tally) (value : Observation) : Tally :=
  if value.successful then
    ⟨tally.successes + 1, int64 (tally.total + value.duration), some value⟩
  else tally

/-- The forward loop. -/
def tally (values : List Observation) : Tally := values.foldl Tally.step {}

/-- The backward loop, over the reversed window: the consecutive successes and failures. -/
def streaks : Int → Int → List Observation → Int × Int
  | successes, failures, [] => (successes, failures)
  | successes, failures, value :: rest =>
    if value.successful then
      if failures > 0 then (successes, failures) else streaks (successes + 1) failures rest
    else
      if successes > 0 then (successes, failures) else streaks successes (failures + 1) rest

/-- The rest of `Summarize`, from the sorted window. -/
def summary (key : Key) (now : Time) (freshness : Duration) (window : List Observation) :
    FullSummary :=
  let counted := tally window
  let streak := streaks 0 0 window.reverse
  { key := key
    samples := window.length
    successes := counted.successes
    meanSuccessDuration :=
      if counted.successes > 0 then counted.total.tdiv counted.successes else 0
    consecutiveSuccesses := streak.1
    consecutiveFailures := streak.2
    fresh := window.getLast?.any fun latest => now - latest.completedAt ≤ freshness
    successRatio :=
      if window = [] then 0 else Float.ofInt counted.successes / Float.ofInt window.length
    latest := window.getLast?
    latestSuccess := counted.latestSuccess }

/-- The sorted window of a list of observations. -/
def windowOf (values : List Observation) (now : Time) (window : Duration) : List Observation :=
  sortSlice (lessObservation sum256) (values.filter (within (now - window) now))

/-- `Summarize`. -/
def summarize (key : Key) (values : List Observation) (now : Time) (window freshness : Duration) :
    Except String FullSummary :=
  if !key.valid then .error "invalid observation key"
  else if now = 0 ∨ window ≤ 0 ∨ freshness ≤ 0 then
    .error "summary requires explicit positive time bounds"
  else do
    let kept ← filtered key (now - window) now values
    return summary key now freshness (sortSlice (lessObservation sum256) kept)

/-! ## The loops -/

theorem filtered_eq {key : Key} {cutoff now : Time} {values : List Observation}
    (hkey : ∀ value ∈ values, sameKey key value.key) :
    filtered key cutoff now values = .ok (values.filter (within cutoff now)) := by
  induction values with
  | nil => rfl
  | cons value rest ih =>
    have hvalue : sameKey key value.key = true := hkey value (by simp)
    rw [filtered, ih fun other hother => hkey other (by simp [hother]), List.filter_cons, hvalue]
    rfl

/-- The exact total of the success durations. -/
def successTotal (window : List Observation) : Duration :=
  ((window.filter successful).map (·.duration)).sum

/-- The forward loop counts the successes, adds up their durations and keeps the last. -/
theorem tally_eq (window : List Observation) :
    tally window = ⟨window.countP successful, int64 (successTotal window),
      (window.filter successful).getLast?⟩ := by
  induction window using List.reverseRecOn with
  | nil => rfl
  | append_singleton window value ih =>
    rw [tally, List.foldl_append, ← tally, ih, List.foldl_cons, List.foldl_nil, Tally.step]
    cases hvalue : value.successful with
    | false => simp [hvalue, successTotal]
    | true => simp [hvalue, successTotal, int64_add_int64]

/-- Once the backward loop has met an outcome, it goes on while it meets the same. -/
theorem streaks_eq (successes failures : Int) (h : 0 ≤ successes) (h' : 0 ≤ failures)
    (hone : successes = 0 ∨ failures = 0) (rest : List Observation) :
    streaks successes failures rest =
      (successes + if failures > 0 then 0 else (rest.takeWhile successful).length,
        failures + if successes > 0 then 0 else (rest.takeWhile (!successful ·)).length) := by
  induction rest generalizing successes failures with
  | nil => simp [streaks]
  | cons value rest ih =>
    rw [streaks]
    cases hvalue : value.successful with
    | true =>
      by_cases hf : failures > 0
      · obtain rfl : successes = 0 := by omega
        simp [hvalue, hf]
      · obtain rfl : failures = 0 := by omega
        rw [if_pos rfl, if_neg hf, ih (successes + 1) 0 (by omega) le_rfl (.inr rfl)]
        simp [hvalue, show 0 < successes + 1 by omega]
        omega
    | false =>
      by_cases hs : successes > 0
      · obtain rfl : failures = 0 := by omega
        simp [hvalue, hs]
      · obtain rfl : successes = 0 := by omega
        rw [if_neg (by simp), if_neg hs, ih 0 (failures + 1) le_rfl (by omega) (.inl rfl)]
        simp [hvalue, show 0 < failures + 1 by omega]
        omega

/-! ## What a summary describes -/

/-- `left` comes before `right` in a window: by completion time, then by sample ID. -/
def Before (left right : Observation) : Prop :=
  left.completedAt < right.completedAt ∨ left.completedAt = right.completedAt ∧
    (observationDigest sum256 left).val < (observationDigest sum256 right).val

/-- `W` is the window: the observations completed in it, in order. -/
structure Windowed (values : List Observation) (now : Time) (window : Duration)
    (W : List Observation) : Prop where
  perm : W.Perm (values.filter fun value =>
    decide (now - window ≤ value.completedAt) && decide (value.completedAt ≤ now))
  sorted : W.Pairwise (Before sum256)

/-- What a summary says about the window `W`. -/
structure Describes (W : List Observation) (summary : FullSummary) : Prop where
  samples : summary.samples = W.length
  successes : summary.successes = W.countP successful
  consecutiveSuccesses : summary.consecutiveSuccesses = (W.rtakeWhile successful).length
  consecutiveFailures : summary.consecutiveFailures = (W.rtakeWhile (!successful ·)).length
  one_streak : summary.consecutiveSuccesses = 0 ∨ summary.consecutiveFailures = 0
  latest : summary.latest = W.getLast?
  latestSuccess : summary.latestSuccess = (W.filter successful).getLast?
  mean : successTotal W < 2 ^ 63 →
    summary.meanSuccessDuration = successTotal W / (W.countP successful : Int)

theorem successTotal_nonneg (window : List Observation) : 0 ≤ successTotal window := by
  apply List.sum_nonneg
  intro duration hduration
  obtain ⟨value, -, rfl⟩ := List.mem_map.mp hduration
  exact value.checked.2.1.1

theorem successTotal_le (window : List Observation) :
    successTotal window ≤ window.countP successful * (2 * Duration.minute) := by
  have hle := List.sum_le_card_nsmul ((window.filter successful).map (·.duration))
    (2 * Duration.minute) (by
      intro duration hduration
      obtain ⟨value, -, rfl⟩ := List.mem_map.mp hduration
      exact value.checked.2.1.2)
  rwa [List.length_map, ← List.countP_eq_length_filter, nsmul_eq_mul] at hle

theorem summary_describes (key : Key) (now : Time) (freshness : Duration) (W : List Observation) :
    Describes W (summary key now freshness W) := by
  have hstreaks := streaks_eq 0 0 le_rfl le_rfl (.inl rfl) W.reverse
  constructor
  case samples => rfl
  case latest => rfl
  case successes => simp [summary, tally_eq]
  case latestSuccess => simp [summary, tally_eq]
  case consecutiveSuccesses => simp [summary, hstreaks, List.rtakeWhile]
  case consecutiveFailures => simp [summary, hstreaks, List.rtakeWhile]
  case one_streak =>
    -- the last outcome is not a success, or not a failure
    simp only [summary, hstreaks]
    cases W.reverse with
    | nil => simp
    | cons value rest => cases hvalue : value.successful <;> simp [hvalue]
  case mean =>
    intro htotal
    have hnonneg := successTotal_nonneg W
    simp only [summary, tally_eq, int64_eq_self ⟨le_trans (by norm_num) hnonneg, htotal⟩]
    split_ifs with hpos
    · exact Int.tdiv_eq_ediv_of_nonneg hnonneg
    · rw [show (W.countP successful : Int) = 0 by omega, Int.ediv_zero]

/-! ## The order of the observations -/

/-- The position of an observation in a window. -/
def position (value : Observation) : Time ×ₗ Bytes :=
  toLex (value.completedAt, (observationDigest sum256 value).val)

theorem position_lt_iff {left right : Observation} :
    position sum256 left < position sum256 right ↔ Before sum256 left right :=
  Prod.Lex.toLex_lt_toLex

theorem lessObservation_iff (left right : Observation) :
    lessObservation sum256 left right = true ↔ position sum256 left < position sum256 right := by
  rw [position_lt_iff, lessObservation, Before]
  split_ifs with h
  · simp [h]
  · simp only [ne_eq, not_not] at h
    simp [h, bytesCompare_eq_lt_iff]

section Distinct

variable {sum256} {values : List Observation}
  (hids : (values.map (observationDigest sum256)).Nodup)

include hids

theorem nodup_positions (p : Observation → Bool) :
    ((values.filter p).map (position sum256)).Nodup := by
  have hnodup : ((values.filter p).map (observationDigest sum256)).Nodup :=
    hids.sublist (List.filter_sublist.map _)
  refine (List.nodup_map_iff_inj_on hnodup.of_map).mpr fun left hleft right hright h => ?_
  have hdigest : observationDigest sum256 left = observationDigest sum256 right :=
    Subtype.ext (Prod.mk.inj (toLex.injective h)).2
  exact List.inj_on_of_nodup_map hnodup hleft hright hdigest

/-- The sorted observations are the window. -/
theorem windowed_windowOf (now : Time) (window : Duration) :
    Windowed sum256 values now window (windowOf sum256 values now window) where
  perm := by
    have hwithin : within (now - window) now = fun value =>
        decide (now - window ≤ value.completedAt) && decide (value.completedAt ≤ now) := by
      funext value
      simp only [within, Bool.not_or, ← decide_not, not_lt, gt_iff_lt]
    rw [← hwithin]
    exact sortSlice_perm _ _
  sorted :=
    (sortSlice_pairwise_lt (lessObservation_iff sum256) (nodup_positions hids _)).imp
      fun h => (position_lt_iff sum256).mp h

end Distinct

/-! ## Summaries are exact -/

/-- For observations of the key, the first loop is a filter. -/
theorem summarize_eq {key : Key} {values : List Observation} (now : Time)
    (window freshness : Duration) (hkey : ∀ value ∈ values, sameKey key value.key = true) :
    summarize sum256 key values now window freshness =
      if !key.valid then .error "invalid observation key"
      else if now = 0 ∨ window ≤ 0 ∨ freshness ≤ 0 then
        .error "summary requires explicit positive time bounds"
      else .ok (summary key now freshness (windowOf sum256 values now window)) := by
  rw [summarize, filtered_eq hkey]
  rfl

/-- The observations of a summary are all of its key. -/
theorem sameKey_of_summarize {key : Key} {values : List Observation} {now : Time}
    {window freshness : Duration} {result : FullSummary}
    (h : summarize sum256 key values now window freshness = .ok result) :
    ∀ value ∈ values, sameKey key value.key = true := by
  have hfiltered : ∃ kept, filtered key (now - window) now values = .ok kept := by
    rw [summarize] at h
    split_ifs at h
    obtain ⟨kept, hkept, -⟩ := bind_eq_ok.mp h
    exact ⟨kept, hkept⟩
  clear h
  obtain ⟨kept, hkept⟩ := hfiltered
  induction values generalizing kept with
  | nil => simp
  | cons value rest ih =>
    rw [filtered] at hkept
    split at hkept
    · cases hkept
    · next hvalue =>
      obtain ⟨kept', hkept', -⟩ := bind_eq_ok.mp hkept
      exact List.forall_mem_cons.mpr ⟨by simpa using hvalue, ih kept' hkept'⟩

/-- A summary is computed from the window. -/
theorem eq_summary_of_summarize {key : Key} {values : List Observation} {now : Time}
    {window freshness : Duration} {result : FullSummary}
    (h : summarize sum256 key values now window freshness = .ok result) :
    result = summary key now freshness (windowOf sum256 values now window) := by
  rw [summarize_eq sum256 now window freshness (sameKey_of_summarize sum256 h)] at h
  split_ifs at h
  exact (Except.ok.inj h).symm

/-- **Evidence summaries are exact and independent of the order.**  For observations of the
key with distinct sample IDs, a summary is computed whenever the key and the time bounds are
valid; it describes the sorted window, is the same for every order of the observations, and an
observation outside the window, wherever it is added, changes nothing. -/
theorem summarize_exact (key : Key) (values : List Observation) (now : Time)
    (window freshness : Duration) (hkey : ∀ value ∈ values, sameKey key value.key = true)
    (hids : (values.map (observationDigest sum256)).Nodup) :
    (∀ values', values.Perm values' →
      summarize sum256 key values' now window freshness =
        summarize sum256 key values now window freshness) ∧
    (key.valid = true → now ≠ 0 → 0 < window → 0 < freshness →
      ∃ W summary, summarize sum256 key values now window freshness = .ok summary ∧
        Windowed sum256 values now window W ∧ Describes W summary) ∧
    ∀ value before after, values = before ++ after → sameKey key value.key = true →
      (value.completedAt < now - window ∨ now < value.completedAt) →
      summarize sum256 key (before ++ value :: after) now window freshness =
        summarize sum256 key values now window freshness := by
  refine ⟨?_, ?_, ?_⟩
  · intro values' hperm
    have hkey' : ∀ value ∈ values', sameKey key value.key = true :=
      fun value hvalue => hkey value (hperm.mem_iff.mpr hvalue)
    have hwindow : windowOf sum256 values now window = windowOf sum256 values' now window :=
      sortSlice_eq_of_perm (lessObservation_iff sum256) (nodup_positions hids _) (hperm.filter _)
    rw [summarize_eq sum256 _ _ _ hkey, summarize_eq sum256 _ _ _ hkey', hwindow]
  · intro hvalid hnow hwindow hfreshness
    refine ⟨_, _, ?_, windowed_windowOf hids now window, summary_describes key now freshness _⟩
    rw [summarize_eq sum256 _ _ _ hkey, if_neg (by simp [hvalid]),
      if_neg (by simp [hnow, hwindow, hfreshness])]
  · rintro value before after rfl hvalue houtside
    have hkey' : ∀ other ∈ before ++ value :: after, sameKey key other.key = true := by
      intro other hother
      rcases List.mem_append.mp hother with h | h
      · exact hkey other (List.mem_append_left _ h)
      · rcases List.mem_cons.mp h with rfl | h
        · exact hvalue
        · exact hkey other (List.mem_append_right _ h)
    have hdropped : within (now - window) now value = false := by
      rw [within, Bool.not_eq_false', Bool.or_eq_true, decide_eq_true_eq, decide_eq_true_eq]
      exact houtside
    rw [summarize_eq sum256 _ _ _ hkey, summarize_eq sum256 _ _ _ hkey', windowOf, windowOf,
      List.filter_append, List.filter_append, List.filter_cons_of_neg (by simp [hdropped])]

namespace Sample

/-- Stands for SHA-256: the last 32 bytes of a text. -/
def last256 (text : Bytes) : Digest :=
  ⟨(text.drop (text.length - 32) ++ List.replicate 32 0).take 32, by simp⟩

def key : Key :=
  ⟨⟨⟨ascii "ep2_sample"⟩, some .zero⟩, ⟨ascii "target", some .zero⟩, ascii "vantage", .httpGet,
    Artifact.mihomo11931⟩

/-- A success of two minutes, completed `i` nanoseconds after the Unix epoch. -/
def success (i : Nat) : Observation where
  key := key
  startedAt := unixEpoch
  completedAt := unixEpoch + i
  duration := 2 * Duration.minute
  outcome := .success
  statusCode := 204
  accepted := by
    have hvalid : key.valid = true := by decide +kernel
    have hepoch : (0 : Int) < unixEpoch := by decide
    rw [Params.failure, hvalid, if_neg (by simp), if_neg]
    · rfl
    · have hle : unixEpoch ≤ unixEpoch + (i : Int) := le_add_of_nonneg_right (Int.natCast_nonneg i)
      simp only [not_or, not_lt, gt_iff_lt, le_refl, and_true]
      exact ⟨hepoch.ne', (hepoch.trans_le hle).ne', hle, by decide⟩

theorem last256_append (head : Bytes) {tail : Bytes} (h : tail.length = 32) :
    (last256 (head ++ tail)).val = tail := by
  simp [last256, List.length_append, h]

/-- The sample IDs of two successes differ: the completion times are in the last bytes. -/
theorem eq_of_digest_success {i j : Nat} (hi : i < 2 ^ 63) (hj : j < 2 ^ 63)
    (h : observationDigest last256 (success i) = observationDigest last256 (success j)) :
    i = j := by
  have htail : ∀ k : Nat, k < 2 ^ 63 → (observationDigest last256 (success k)).val =
      bigEndian 8 (uint64 (unixNano unixEpoch)) ++ (bigEndian 8 k ++
        (bigEndian 8 (uint64 (2 * Duration.minute)) ++ bigEndian 8 (uint64 204))) := by
    intro k hk
    have hnano : uint64 (unixNano (unixEpoch + k)) = k := by
      rw [unixNano, add_sub_cancel_left, int64_eq_self ⟨by omega, by exact_mod_cast hk⟩, uint64]
      omega
    obtain ⟨head, hhead⟩ : ∃ head, digestText (success k) =
        head ++ (bigEndian 8 (uint64 (unixNano unixEpoch)) ++
          (bigEndian 8 (uint64 (unixNano (unixEpoch + k))) ++
            (bigEndian 8 (uint64 (2 * Duration.minute)) ++ bigEndian 8 (uint64 204)))) := by
      apply Exists.intro
      rw [← List.append_assoc, ← List.append_assoc, ← List.append_assoc]
      rfl
    rw [observationDigest, hhead, last256_append head (by simp), hnano]
  have hbytes := congrArg Subtype.val h
  rw [htail i hi, htail j hj] at hbytes
  have hcompleted := (List.append_inj (List.append_cancel_left hbytes) (by simp)).1
  exact bigEndian_inj (by norm_num; omega) (by norm_num; omega) hcompleted

/-- The successes completed at the first `n` nanoseconds. -/
def successes (n : Nat) : List Observation := (List.range n).map success

theorem sameKey_successes (n : Nat) : ∀ value ∈ successes n, sameKey key value.key = true := by
  intro value hvalue
  obtain ⟨i, -, rfl⟩ := List.mem_map.mp hvalue
  show sameKey key key = true
  decide +kernel

theorem nodup_successes {n : Nat} (hn : n ≤ 2 ^ 63) :
    ((successes n).map (observationDigest last256)).Nodup := by
  rw [successes, List.map_map]
  refine List.Nodup.map_on (fun i hi j hj h => ?_) List.nodup_range
  rw [List.mem_range] at hi hj
  exact eq_of_digest_success (by omega) (by omega) h

/-- Two observations of two minutes each. -/
theorem summarize_exact_two :
    (∀ value ∈ successes 2, sameKey key value.key = true) ∧
      ((successes 2).map (observationDigest last256)).Nodup ∧
      ∃ W summary, summarize last256 key (successes 2) (unixEpoch + 1) 5 5 = .ok summary ∧
        Windowed last256 (successes 2) (unixEpoch + 1) 5 W ∧ Describes W summary := by
  have hids := nodup_successes (n := 2) (by norm_num)
  refine ⟨sameKey_successes 2, hids, ?_⟩
  exact (summarize_exact last256 key (successes 2) (unixEpoch + 1) 5 5 (sameKey_successes 2)
    hids).2.1 (by decide +kernel) (by decide +kernel) (by norm_num) (by norm_num)

/-- The mean of 76861434 successes of two minutes each comes out negative: the total of their
durations exceeds an `int64`. -/
theorem mean_negative :
    (∀ value ∈ successes 76861434, sameKey key value.key = true) ∧
      ((successes 76861434).map (observationDigest last256)).Nodup ∧
      (∀ value ∈ successes 76861434, value.duration = 2 * Duration.minute) ∧
      ∃ summary, summarize last256 key (successes 76861434) (unixEpoch + 76861434) 76861434 1 =
        .ok summary ∧ summary.meanSuccessDuration < 0 := by
  have hmem : ∀ value ∈ successes 76861434, ∃ i < 76861434, value = success i := by
    intro value hvalue
    obtain ⟨i, hi, rfl⟩ := List.mem_map.mp hvalue
    exact ⟨i, List.mem_range.mp hi, rfl⟩
  have hwithin : (successes 76861434).filter
      (within (unixEpoch + 76861434 - 76861434) (unixEpoch + 76861434)) = successes 76861434 := by
    refine List.filter_eq_self.mpr fun value hvalue => ?_
    obtain ⟨i, hi, rfl⟩ := hmem value hvalue
    simp [within, success]
    omega
  refine ⟨sameKey_successes _, nodup_successes (by norm_num), ?_, _,
    (summarize_eq last256 _ _ _ (sameKey_successes _)).trans
      ((if_neg (by decide +kernel)).trans (if_neg (by decide +kernel))), ?_⟩
  · intro value hvalue
    obtain ⟨i, -, rfl⟩ := hmem value hvalue
    rfl
  · rw [windowOf, hwithin]
    set W := sortSlice (lessObservation last256) (successes 76861434)
    have hW : ∀ value ∈ W, ∃ i, value = success i := by
      intro value hvalue
      obtain ⟨i, -, hi⟩ := hmem value (mem_sortSlice.mp hvalue)
      exact ⟨i, hi⟩
    have hlength : W.length = 76861434 := by simp [W, successes]
    have hall : ∀ value ∈ W, value.successful = true := by
      intro value hvalue
      obtain ⟨i, rfl⟩ := hW value hvalue
      rfl
    have htotal : successTotal W = 76861434 * (2 * Duration.minute) := by
      have hdurations : W.map (·.duration) = List.replicate 76861434 (2 * Duration.minute) := by
        refine List.eq_replicate_iff.mpr ⟨by rw [List.length_map, hlength], fun duration h => ?_⟩
        obtain ⟨value, hvalue, rfl⟩ := List.mem_map.mp h
        obtain ⟨i, rfl⟩ := hW value hvalue
        rfl
      rw [successTotal, List.filter_eq_self.mpr hall, hdurations, List.sum_replicate]
      rfl
    simp only [summary, tally_eq, htotal, List.countP_eq_length.mpr hall, hlength]
    decide +kernel

end Sample

end Egressfox.Observation
