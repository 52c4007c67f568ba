import Egressfox.Controller.HTTPRefresher
import Egressfox.Scheduling.State

/-!
# The evidence cadence and the requeue jitter

`requeueAfter` of `internal/controller/proxypool_controller.go` delays a requeue by a part of
its interval that is fixed by the hash of a UID.  `probeCadence` leaves room for it: as many
rounds as a policy asks for samples fit into its evidence window even if every requeue is as
late as it can be.
-/

namespace Egressfox.Controller

open Lib Selection Scheduling

/-- `requeueAfter`. -/
def requeueAfter (value : Duration) (uid : Bytes) : Duration :=
  let base := refreshInterval value
  let spread := requeueJitterPermille.toNat * 10
  int64 (base + int64 (base % 2 ^ 64 * (fnv32a uid % (spread + 1) : Nat) % 2 ^ 64 / 10000))

/-- The cadence of a policy before it is raised to the minimum. -/
def unflooredCadence (policy : Policy) : Duration :=
  min policy.freshness ((policy.evidenceWindow * 1000).tdiv
    (policy.minSamples * (1000 + requeueJitterPermille)))

/-- No operation of `probeCadence` and `requeueAfter` overflows. -/
structure CadenceFits (policy : Policy) (cadence : Duration) (uid : Bytes) : Prop where
  spread : FitsInt64 (policy.minSamples * (1000 + requeueJitterPermille))
  scaled : FitsInt64 (policy.evidenceWindow * 1000)
  quotient : FitsInt64 ((policy.evidenceWindow * 1000).tdiv
    (policy.minSamples * (1000 + requeueJitterPermille)))
  /-- The product is one of `uint64`. -/
  product : cadence * (fnv32a uid % 1001 : Nat) < 2 ^ 64
  jitter : FitsInt64 (cadence * (fnv32a uid % 1001 : Nat) / 10000)
  sum : FitsInt64 (cadence + cadence * (fnv32a uid % 1001 : Nat) / 10000)

/-- The bounds of an accepted policy that matter here. -/
theorem bounds_of_validate {policy : Policy} (h : policy.validate = .ok ()) :
    (policy.minSamples ≤ 512) ∧ (0 : Int) < policy.evidenceWindow ∧
      policy.evidenceWindow ≤ (30 * 24 * Duration.hour : Int) := by
  unfold Policy.validate at h
  split at h
  · cases h
  · split_ifs at h with hbounds
    simp only [not_or, not_lt, gt_iff_lt, not_le] at hbounds
    exact ⟨hbounds.2.2.2.1, hbounds.2.2.2.2.2.2.2.2.2.2.1, hbounds.2.2.2.2.2.2.2.2.2.2.2.1⟩

/-- A requeue is delayed by a tenth at most. -/
theorem requeueAfter_bounds {base : Int} (hlow : 30000000000 ≤ base)
    (hhigh : base ≤ 86400000000000) (uid : Bytes) :
    base * (fnv32a uid % 1001 : Nat) < 2 ^ 64 ∧
    FitsInt64 (base * (fnv32a uid % 1001 : Nat) / 10000) ∧
    FitsInt64 (base + base * (fnv32a uid % 1001 : Nat) / 10000) ∧
    base ≤ requeueAfter base uid ∧ 1000 * requeueAfter base uid ≤ base * 1100 := by
  have hr : ((fnv32a uid % 1001 : Nat) : Int) ≤ 1000 := by omega
  set r : Int := ((fnv32a uid % 1001 : Nat) : Int) with hrdef
  have hnonneg : 0 ≤ base * r := mul_nonneg (by omega) (by omega)
  have hle : base * r ≤ base * 1000 := mul_le_mul_of_nonneg_left hr (by omega)
  have hkept : refreshInterval base = base := by
    refine if_neg ?_
    simp only [Bool.or_eq_true, decide_eq_true_eq, not_or, not_lt, gt_iff_lt]
    exact ⟨hlow, hhigh⟩
  have hjitter : FitsInt64 (base * r / 10000) := ⟨by omega, by omega⟩
  have hsum : FitsInt64 (base + base * r / 10000) := ⟨by omega, by omega⟩
  have hvalue : requeueAfter base uid = base + base * r / 10000 := by
    have hbase : base % 2 ^ 64 = base := Int.emod_eq_of_lt (by omega) (by omega)
    have hproduct : base * r % 2 ^ 64 = base * r := Int.emod_eq_of_lt hnonneg (by omega)
    simp only [requeueAfter, hkept, hbase]
    rw [show requeueJitterPermille.toNat * 10 + 1 = 1001 from rfl, ← hrdef, hproduct,
      int64_eq_self hjitter, int64_eq_self hsum]
  have hlate : 1000 * (base + base * r / 10000) ≤ base * 1100 := by omega
  rw [hvalue]
  exact ⟨by omega, hjitter, hsum, by omega, hlate⟩

/-- **The probe cadence keeps enough evidence.**  For an accepted policy with more than one
sample, whose cadence is neither raised to the minimum nor replaced by `refreshInterval`: nothing
overflows, the cadence is within the freshness, a requeue is late by the jitter at most, and that
many rounds fit into the evidence window. -/
theorem cadence_keeps_evidence (policy : Policy) (uid : Bytes) (hvalid : policy.validate = .ok ())
    (hsamples : 1 < policy.minSamples) (hfloor : minProbeCadence ≤ unflooredCadence policy)
    (hlow : 30 * Duration.second ≤ unflooredCadence policy)
    (hhigh : unflooredCadence policy ≤ 24 * Duration.hour) :
    CadenceFits policy (probeCadence policy) uid ∧
    probeCadence policy = unflooredCadence policy ∧
    probeCadence policy ≤ policy.freshness ∧
    probeCadence policy ≤ requeueAfter (probeCadence policy) uid ∧
    1000 * requeueAfter (probeCadence policy) uid ≤
      probeCadence policy * (1000 + requeueJitterPermille) ∧
    policy.minSamples * requeueAfter (probeCadence policy) uid ≤ policy.evidenceWindow := by
  obtain ⟨hmany, hwindow, hlong⟩ := bounds_of_validate hvalid
  have hcadence : probeCadence policy = unflooredCadence policy := by
    rw [probeCadence]
    simp only [gt_iff_lt, hsamples, if_true]
    exact max_eq_left hfloor
  obtain ⟨hproduct, hjitter, hsum, hge, hlate⟩ := requeueAfter_bounds hlow hhigh uid
  have hhour : (30 * 24 * Duration.hour : Int) = 2592000000000000 := rfl
  rw [hhour] at hlong
  set quotient := (policy.evidenceWindow * 1000).tdiv
    (policy.minSamples * (1000 + requeueJitterPermille)) with hquotient
  have hspread : 0 < policy.minSamples * (1000 + requeueJitterPermille) :=
    mul_pos (by omega) (by decide)
  have hdiv : quotient = policy.evidenceWindow * 1000 / (policy.minSamples * 1100) :=
    Int.tdiv_eq_ediv_of_nonneg (mul_nonneg hwindow.le (by norm_num))
  have hnonneg : (0 : Int) ≤ quotient :=
    hdiv ▸ Int.ediv_nonneg (mul_nonneg hwindow.le (by norm_num)) hspread.le
  have hle : quotient ≤ policy.evidenceWindow * 1000 :=
    hdiv ▸ Int.ediv_le_self _ (mul_nonneg hwindow.le (by norm_num))
  have hscaled : policy.evidenceWindow * 1000 < 2 ^ 63 :=
    lt_of_le_of_lt (mul_le_mul_of_nonneg_right hlong (by norm_num)) (by norm_num)
  rw [hcadence]
  refine ⟨⟨⟨by omega, ?_⟩, ⟨le_trans (by norm_num) (hnonneg.trans hle), hscaled⟩,
    ⟨le_trans (by norm_num) hnonneg, hle.trans_lt hscaled⟩, hproduct, hjitter, hsum⟩, rfl,
    min_le_left _ _, hge, hlate, ?_⟩
  · have : policy.minSamples * (1000 + requeueJitterPermille) ≤ 512 * 1100 :=
      mul_le_mul_of_nonneg_right hmany (by decide)
    omega
  · -- each requeue is at most 1.1 cadences, and that many of these fit by the division
    have hcadences : unflooredCadence policy ≤ quotient := min_le_right _ _
    have hfit : quotient * (policy.minSamples * 1100) ≤ policy.evidenceWindow * 1000 :=
      hdiv ▸ Int.ediv_mul_le _ hspread.ne'
    have hchain : 1000 * (policy.minSamples * requeueAfter (unflooredCadence policy) uid) ≤
        1000 * policy.evidenceWindow := by
      calc 1000 * (policy.minSamples * requeueAfter (unflooredCadence policy) uid)
          = policy.minSamples * (1000 * requeueAfter (unflooredCadence policy) uid) := by ring
        _ ≤ policy.minSamples * (unflooredCadence policy * 1100) :=
            mul_le_mul_of_nonneg_left hlate (by omega)
        _ = unflooredCadence policy * (policy.minSamples * 1100) := by ring
        _ ≤ quotient * (policy.minSamples * 1100) :=
            mul_le_mul_of_nonneg_right hcadences hspread.le
        _ ≤ 1000 * policy.evidenceWindow := by rw [mul_comm 1000]; exact hfit
    exact le_of_mul_le_mul_left hchain (by norm_num)

/-- The default policy meets the conditions: a round every five minutes. -/
theorem cadence_keeps_evidence_default :
    evidencePolicy.validate = .ok () ∧ 1 < evidencePolicy.minSamples ∧
      minProbeCadence ≤ unflooredCadence evidencePolicy ∧
      evidencePolicy.minSamples * requeueAfter (probeCadence evidencePolicy) (ascii "uid") ≤
        evidencePolicy.evidenceWindow :=
  ⟨by decide, by decide, by decide, (cadence_keeps_evidence evidencePolicy (ascii "uid")
    (by decide) (by decide) (by decide) (by decide) (by decide)).2.2.2.2.2⟩

end Egressfox.Controller
