import Egressfox.Observation.Summary

/-!
# The arithmetic of costs

`riskCost` and `improvesBy` of `internal/selection/selection.go`, on the durations that
`Summarize` computes.  A success takes at most two minutes, so the total of a million of them
and the scaled mean stay far below the limits of an `int64`, and the rounded cost is the
ceiling of the exact one.

A mean of zero has no cost: `riskCost` gives it the greatest one, so among such explanations a
smaller cost says nothing about the ratio.  `evaluate` rejects them before it computes a cost.
-/

namespace Egressfox.Selection

open Lib Observation

variable {sum256 : Bytes → Digest} {duration confidence : Int} {a b c : Explanation}

/-- No operation of `riskCost` overflows. -/
def RiskCostFits (duration confidence : Int) : Prop :=
  FitsInt64 (duration * 1000000) ∧ FitsInt64 (duration * 1000000 + confidence) ∧
    FitsInt64 (duration * 1000000 + confidence - 1)

/-- An explanation whose mean was computed from at most a million observations, with its cost. -/
structure Priced (sum256 : Bytes → Digest) (e : Explanation) : Prop where
  summarized : ∃ key values now window freshness summary,
    summarize sum256 key values now window freshness = .ok summary ∧
      values.length ≤ 1000000 ∧ e.meanSuccessDuration = summary.meanSuccessDuration
  confidence : 1 ≤ e.confidencePPM ∧ e.confidencePPM ≤ 1000000
  cost : e.adaptiveCostNanos = riskCost e.meanSuccessDuration e.confidencePPM

/-- The exact ratio of duration and confidence. -/
def ratio (e : Explanation) : ℚ := (e.meanSuccessDuration : ℚ) / e.confidencePPM

/-! ## The total and the mean -/

theorem successTotal_le_million {W : List Observation} (h : W.length ≤ 1000000) :
    successTotal W ≤ 1000000 * 120000000000 := by
  have hcount : (W.countP successful : Int) ≤ 1000000 :=
    Nat.cast_le.mpr (List.countP_le_length.trans h)
  exact (successTotal_le W).trans (mul_le_mul_of_nonneg_right hcount (by decide))

theorem successTotal_lt {W : List Observation} (h : W.length ≤ 1000000) :
    successTotal W < 2 ^ 63 := lt_of_le_of_lt (successTotal_le_million h) (by norm_num)

/-- The running total of the forward loop is exact. -/
theorem total_tally {W : List Observation} (h : W.length ≤ 1000000) :
    (tally W).total = successTotal W := by
  rw [tally_eq]
  exact int64_eq_self ⟨le_trans (by norm_num) (successTotal_nonneg W), successTotal_lt h⟩

theorem length_windowOf_le (values : List Observation) (now : Time) (window : Duration) :
    (windowOf sum256 values now window).length ≤ values.length := by
  rw [windowOf, length_sortSlice]
  exact List.length_filter_le _ _

/-- A mean is a duration of an observation at most. -/
theorem mean_bounds {W : List Observation} (h : W.length ≤ 1000000) (key : Key) (now : Time)
    (freshness : Duration) :
    0 ≤ (summary key now freshness W).meanSuccessDuration ∧
      (summary key now freshness W).meanSuccessDuration ≤ 120000000000 := by
  rw [(summary_describes key now freshness W).mean (successTotal_lt h)]
  refine ⟨Int.ediv_nonneg (successTotal_nonneg W) (Int.natCast_nonneg _), ?_⟩
  rcases Nat.eq_zero_or_pos (W.countP successful) with hzero | hpos
  · rw [hzero]
    norm_num
  · refine Int.ediv_le_of_le_mul (by exact_mod_cast hpos) ?_
    rw [mul_comm]
    exact successTotal_le W

theorem Priced.bounds (h : Priced sum256 a) :
    0 ≤ a.meanSuccessDuration ∧ a.meanSuccessDuration ≤ 120000000000 := by
  obtain ⟨key, values, now, window, freshness, summary, hsummary, hmany, hmean⟩ := h.summarized
  rw [hmean, eq_summary_of_summarize sum256 hsummary]
  exact mean_bounds ((length_windowOf_le values now window).trans hmany) key now freshness

/-! ## The cost -/

theorem riskCostFits (hduration : 0 ≤ duration ∧ duration ≤ 120000000000)
    (hconfidence : 1 ≤ confidence ∧ confidence ≤ 1000000) : RiskCostFits duration confidence := by
  refine ⟨⟨?_, ?_⟩, ⟨?_, ?_⟩, ⟨?_, ?_⟩⟩
  all_goals omega

/-- The rounded cost is the ceiling of the exact one. -/
theorem riskCost_eq_ceil (hduration : 0 < duration) (hle : duration ≤ 120000000000)
    (hconfidence : 1 ≤ confidence ∧ confidence ≤ 1000000) :
    riskCost duration confidence = ⌈(duration * 1000000 : ℚ) / confidence⌉ := by
  obtain ⟨hscaled, -, hsum⟩ := riskCostFits ⟨hduration.le, hle⟩ hconfidence
  have hpos : (0 : ℚ) < confidence := by exact_mod_cast hconfidence.1
  rw [riskCost, if_neg (not_or.mpr ⟨hduration.not_ge, by omega⟩), int64_eq_self hscaled,
    int64_eq_self hsum, Int.tdiv_eq_ediv_of_nonneg (by omega), eq_comm, Int.ceil_eq_iff,
    lt_div_iff₀ hpos, div_le_iff₀ hpos]
  set n := duration * 1000000 with hn
  have hdiv := Int.mul_ediv_add_emod (n + confidence - 1) confidence
  have hlow := Int.emod_nonneg (n + confidence - 1) (show confidence ≠ 0 by omega)
  have hhigh := Int.emod_lt_of_pos (n + confidence - 1) (show 0 < confidence by omega)
  set q := (n + confidence - 1) / confidence
  have hcast : (duration * 1000000 : ℚ) = (n : ℚ) := by rw [hn]; push_cast; rfl
  rw [hcast]
  constructor
  · have hlt : (q - 1) * confidence < n := by rw [sub_mul, mul_comm]; omega
    exact_mod_cast hlt
  · have hge : n ≤ q * confidence := by rw [mul_comm]; omega
    exact_mod_cast hge

theorem Priced.cost_eq_ceil (h : Priced sum256 a) (hpos : 0 < a.meanSuccessDuration) :
    a.adaptiveCostNanos = ⌈ratio a * 1000000⌉ := by
  rw [h.cost, riskCost_eq_ceil hpos h.bounds.2 h.confidence, ratio, mul_div_right_comm]

/-! ## Improving -/

/-- The cross-multiplied test is the exact one. -/
theorem improvesBy_iff (ha : Priced sum256 a) (hb : Priced sum256 b) (k : Int) :
    improvesBy a b k = true ↔
      ratio a ≤ ratio b * ((1000 - k) / 1000) ∧ a.adaptiveCostNanos < b.adaptiveCostNanos := by
  have hpos : (0 : ℚ) < a.confidencePPM := by exact_mod_cast ha.confidence.1
  have hpos' : (0 : ℚ) < b.confidencePPM := by exact_mod_cast hb.confidence.1
  rw [improvesBy, Bool.and_eq_true, decide_eq_true_eq, decide_eq_true_eq]
  refine and_congr_left fun _ => ?_
  rw [ratio, ratio, div_mul_div_comm, div_le_div_iff₀ hpos (by positivity), ← mul_assoc,
    mul_right_comm (b.meanSuccessDuration : ℚ)]
  exact_mod_cast Iff.rfl

/-- **Cost arithmetic is exact.**  Nothing overflows, the cost of a positive mean is the exact
one rounded up, and among positive means a smaller cost means a smaller ratio.  The improvement
test is that of the exact threshold and of the rounded costs, hence a strict order. -/
theorem cost_arithmetic_exact (sum256 : Bytes → Digest) :
    (∀ key values now window freshness summary,
      summarize sum256 key values now window freshness = .ok summary → values.length ≤ 1000000 →
      (∀ before value after, windowOf sum256 values now window = before ++ value :: after →
        FitsInt64 ((tally before).total + value.duration)) ∧
      FitsInt64 summary.meanSuccessDuration ∧
      ∀ confidence, 1 ≤ confidence → confidence ≤ 1000000 →
        RiskCostFits summary.meanSuccessDuration confidence ∧
        (0 < summary.meanSuccessDuration → riskCost summary.meanSuccessDuration confidence =
          ⌈(summary.meanSuccessDuration * 1000000 : ℚ) / confidence⌉)) ∧
    (∀ a b, Priced sum256 a → Priced sum256 b → 0 < a.meanSuccessDuration →
      0 < b.meanSuccessDuration → a.adaptiveCostNanos < b.adaptiveCostNanos → ratio a < ratio b) ∧
    ∀ k : Int, 0 ≤ k → k ≤ 999 →
      (∀ a b, Priced sum256 a → Priced sum256 b → (improvesBy a b k = true ↔
        ratio a ≤ ratio b * ((1000 - k) / 1000) ∧ a.adaptiveCostNanos < b.adaptiveCostNanos)) ∧
      (∀ a, Priced sum256 a → improvesBy a a k = false) ∧
      (∀ a b, Priced sum256 a → Priced sum256 b → improvesBy a b k = true →
        improvesBy b a k = false) ∧
      ∀ a b c, Priced sum256 a → Priced sum256 b → Priced sum256 c → improvesBy a b k = true →
        improvesBy b c k = true → improvesBy a c k = true := by
  refine ⟨?_, ?_, ?_⟩
  · intro key values now window freshness summary hsummary hmany
    have hlength : (windowOf sum256 values now window).length ≤ 1000000 :=
      (length_windowOf_le values now window).trans hmany
    have hbounds := mean_bounds hlength key now freshness
    rw [eq_summary_of_summarize sum256 hsummary]
    refine ⟨?_, ⟨le_trans (by norm_num) hbounds.1, lt_of_le_of_lt hbounds.2 (by norm_num)⟩, ?_⟩
    · intro before value after hwindow
      have hbefore : before.length ≤ 1000000 := by
        rw [hwindow, List.length_append] at hlength
        omega
      have hvalue := value.checked.2.1
      rw [total_tally hbefore]
      refine ⟨le_trans (by norm_num) (add_nonneg (successTotal_nonneg before) hvalue.1), ?_⟩
      exact lt_of_le_of_lt (add_le_add (successTotal_le_million hbefore) hvalue.2) (by decide)
    · intro confidence hlow hhigh
      exact ⟨riskCostFits hbounds ⟨hlow, hhigh⟩,
        fun hpos => riskCost_eq_ceil hpos hbounds.2 ⟨hlow, hhigh⟩⟩
  · intro a b ha hb hapos hbpos hlt
    rw [ha.cost_eq_ceil hapos, hb.cost_eq_ceil hbpos] at hlt
    by_contra hle
    have hmono := mul_le_mul_of_nonneg_right (not_lt.mp hle) (show (0 : ℚ) ≤ 1000000 by norm_num)
    exact absurd hlt (not_lt.mpr (Int.ceil_mono hmono))
  · intro k hlow hhigh
    refine ⟨fun a b ha hb => improvesBy_iff ha hb k, ?_, ?_, ?_⟩
    · intro a ha
      rw [← Bool.not_eq_true, improvesBy_iff ha ha]
      exact fun h => lt_irrefl _ h.2
    · intro a b ha hb h
      rw [← Bool.not_eq_true, improvesBy_iff hb ha]
      exact fun h' => lt_asymm ((improvesBy_iff ha hb k).mp h).2 h'.2
    · intro a b c ha hb hc hab hbc
      obtain ⟨hratio, hcost⟩ := (improvesBy_iff ha hb k).mp hab
      obtain ⟨hratio', hcost'⟩ := (improvesBy_iff hb hc k).mp hbc
      refine (improvesBy_iff ha hc k).mpr ⟨?_, hcost.trans hcost'⟩
      -- the threshold itself is at most the ratio
      have hnonneg : 0 ≤ ratio c := div_nonneg (by exact_mod_cast hc.bounds.1)
        (by exact_mod_cast (zero_le_one.trans hc.confidence.1))
      have hk : ((1000 - k) / 1000 : ℚ) ≤ 1 := by
        have : (0 : ℚ) ≤ k := by exact_mod_cast hlow
        linarith
      have hk' : (0 : ℚ) ≤ (1000 - k) / 1000 := by
        have : (k : ℚ) ≤ 999 := by exact_mod_cast hhigh
        linarith
      have hle : ratio b ≤ ratio c := hratio'.trans (mul_le_of_le_one_right hnonneg hk)
      exact hratio.trans (mul_le_mul_of_nonneg_right hle hk')

namespace Sample

open Observation.Sample

/-- An explanation with a mean and full confidence. -/
def priced (mean : Duration) : Explanation :=
  ⟨key.connection, key.connection.id, .eligible, 1, 1, 1000, mean, 1000000, riskCost mean 1000000,
    false, false⟩

theorem priced_two_minutes : Priced last256 (priced (2 * Duration.minute)) where
  summarized := ⟨key, successes 1, Checkpoint.unixEpoch, 1, 1, _, rfl, by decide, rfl⟩
  confidence := by decide
  cost := rfl

theorem priced_zero : Priced last256 (priced 0) where
  summarized := ⟨key, [], 1, 1, 1, _, rfl, by decide, rfl⟩
  confidence := by decide
  cost := rfl

theorem cost_arithmetic_exact_two_minutes :
    Priced last256 (priced (2 * Duration.minute)) ∧
      improvesBy (priced (2 * Duration.minute)) (priced (2 * Duration.minute)) 0 = false :=
  ⟨priced_two_minutes,
    ((cost_arithmetic_exact last256).2.2 0 le_rfl (by decide)).2.1 _ priced_two_minutes⟩

/-- A mean of zero has the smaller ratio and the greater cost. -/
theorem zero_mean_costs_more :
    Priced last256 (priced (2 * Duration.minute)) ∧ Priced last256 (priced 0) ∧
      (priced (2 * Duration.minute)).adaptiveCostNanos < (priced 0).adaptiveCostNanos ∧
      ¬ ratio (priced (2 * Duration.minute)) < ratio (priced 0) := by
  refine ⟨priced_two_minutes, priced_zero, by decide, ?_⟩
  norm_num [ratio, priced, Duration.minute, Duration.second]

end Sample

end Egressfox.Selection
