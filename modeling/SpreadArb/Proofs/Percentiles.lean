import SpreadArb.TestMetrics
import SpreadArb.Numeric.Sorted

namespace SpreadArb.Proofs.Percentiles
open Numeric.Sorted

/-- At least `p` percent of the samples are at most `v`, and at most `p` percent are smaller. -/
structure IsPercentile (p : Nat) (samples : List Duration) (v : Duration) : Prop where
  sample : v ∈ samples
  covers : p * samples.length ≤ 100 * samples.countP (· ≤ v)
  reaches : 100 * samples.countP (· < v) ≤ p * samples.length

/-- The index for `p` percent. -/
theorem index_eq (p n : Nat) : ⌊(p : ℚ) / 100 * n⌋₊ = p * n / 100 := by
  have hrat : (p : ℚ) / 100 * n = ((p * n : Nat) : ℚ) / (100 : Nat) := by
    push_cast
    ring
  rw [hrat,Nat.floor_div_eq_div]

/-- Below a hundred percent the index needs no clamp. -/
theorem calculatePercentile_eq {sorted : List Duration} {p : Nat} (hne : sorted ≠ [])
    (hp : p < 100) :
    ∃ v, sorted[p * sorted.length / 100]? = some v ∧
      calculatePercentile sorted p = some (some v) := by
  have hlen : 0 < sorted.length := List.length_pos_of_ne_nil hne
  have hindex : p * sorted.length / 100 < sorted.length := by
    rw [Nat.div_lt_iff_lt_mul (by omega),mul_comm]
    exact Nat.mul_lt_mul_of_pos_left hp hlen
  refine ⟨_,List.getElem?_eq_getElem hindex,?_⟩
  unfold calculatePercentile
  rw [if_neg (by simpa using hne)]
  dsimp only
  rw [index_eq,min_eq_left (by omega),List.getElem?_eq_getElem hindex]
  rfl

theorem isPercentile_sorted {samples : List Duration} {p : Nat} {v : Duration}
    (hv : (samples.mergeSort (fun a b => a ≤ b))[p * samples.length / 100]? = some v) :
    IsPercentile p samples v := by
  have hperm := List.mergeSort_perm samples (fun a b => decide (a ≤ b))
  have hle := lt_countP_le (sort_sorted samples) hv
  have hlt := countP_lt_le (sort_sorted samples) hv
  rw [hperm.countP_eq] at hle hlt
  refine ⟨hperm.mem_iff.mp (List.mem_of_getElem? hv),?_,?_⟩
  · omega
  · omega

/-- No index is out of range, the results are the percentiles of the samples in their order, and the
order of the samples does not matter. -/
theorem latency_percentiles_right (latencies : List Duration) (hne : latencies ≠ []) :
    (∃ p50 p95 p99, calculateLatencyPercentiles latencies = some (some p50,some p95,some p99) ∧
      IsPercentile 50 latencies p50 ∧ IsPercentile 95 latencies p95 ∧
        IsPercentile 99 latencies p99 ∧
      p50 ≤ p95 ∧ p95 ≤ p99) ∧
    ∀ latencies', latencies.Perm latencies' →
      calculateLatencyPercentiles latencies' = calculateLatencyPercentiles latencies := by
  have hlength : (latencies.mergeSort (fun a b => a ≤ b)).length = latencies.length :=
    List.length_mergeSort latencies
  have hsorted : latencies.mergeSort (fun a b => a ≤ b) ≠ [] := by
    apply List.ne_nil_of_length_pos
    rw [hlength]
    exact List.length_pos_of_ne_nil hne
  constructor
  · obtain ⟨p50,h50,hout50⟩ := calculatePercentile_eq hsorted (by decide : 50 < 100)
    obtain ⟨p95,h95,hout95⟩ := calculatePercentile_eq hsorted (by decide : 95 < 100)
    obtain ⟨p99,h99,hout99⟩ := calculatePercentile_eq hsorted (by decide : 99 < 100)
    rw [Nat.cast_ofNat] at hout50 hout95 hout99
    rw [hlength] at h50 h95 h99
    refine ⟨p50,p95,p99,?_,isPercentile_sorted h50,isPercentile_sorted h95,
      isPercentile_sorted h99,?_,?_⟩
    · simp [calculateLatencyPercentiles,hne,hout50,hout95,hout99]
    · exact getElem?_le (sort_sorted latencies) (by omega) h50 h95
    · exact getElem?_le (sort_sorted latencies) (by omega) h95 h99
  · intro latencies' hperm
    have hempty : latencies'.isEmpty = latencies.isEmpty := by
      rw [Bool.eq_iff_iff,List.isEmpty_iff_length_eq_zero,List.isEmpty_iff_length_eq_zero,
        hperm.length_eq]
    unfold calculateLatencyPercentiles
    rw [hempty,sort_perm hperm]

/-- The five samples of the unit test, in another order. -/
theorem five_samples_percentiles :
    ∃ p50 p95 p99, calculateLatencyPercentiles [300,100,500,200,400] =
      some (some p50,some p95,some p99) ∧
      p50 ≤ p95 ∧ p95 ≤ p99 := by
  obtain ⟨p50,p95,p99,hout,_,_,_,h⟩ :=
    (latency_percentiles_right [300,100,500,200,400] (by decide)).1
  exact ⟨p50,p95,p99,hout,h⟩

end SpreadArb.Proofs.Percentiles
