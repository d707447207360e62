import SpreadArb.LatencyTracker
import SpreadArb.Numeric.Binary64

namespace SpreadArb.Proofs.Averages
open Numeric Binary64 LatencyStats

/-- The percentiles come in their order, with none above the maximum. -/
def Ordered (s : LatencyStats) : Prop := s.p50Ns ≤ s.p95Ns ∧ s.p95Ns ≤ s.p99Ns ∧ s.p99Ns ≤ s.maxNs

instance (s : LatencyStats) : Decidable (Ordered s) := inferInstanceAs (Decidable (_ ∧ _))

section Weights

theorem alpha_normal : Normal alpha 7205759403792794 (-56) where
  least := by decide
  most := by decide
  small := by decide
  large := by decide
  unpacked := ⟨by decide,by rfl⟩

/-- The weight of the second average is half of that of the first one, and no bit is lost. -/
theorem half_alpha_normal : Normal (alpha * 0.5) 7205759403792794 (-57) where
  least := by decide
  most := by decide
  small := by decide
  large := by decide
  unpacked := ⟨by decide,by rfl⟩

theorem old_part_p50 : ((1.0 - alpha) * (0 : UInt64).toFloat).toModel.unpack =
      .zero .positive := by rfl

theorem old_part_p95 : ((1.0 - alpha * 0.5) * (0 : UInt64).toFloat).toModel.unpack =
      .zero .positive := by rfl

end Weights

section First

variable {x : UInt64}

/-- The weight is not below a tenth, so a latency from ten on gives a product from one on. -/
theorem weighted_log2 {j : Nat} (hten : 10 ≤ x.toNat) (hmost : x.toNat * 2^j < 2^53) :
    56 + j ≤ (7205759403792794 * (x.toNat * 2^j)).log2 ∧
      (7205759403792794 * (x.toNat * 2^j)).log2 < 106 := by
  have hle : 2^(56+j) ≤ 7205759403792794 * (x.toNat * 2^j) := by
    calc 2^(56+j) = 72057594037927936 * 2^j := by rw [Nat.pow_add]
      _ ≤ 7205759403792794 * x.toNat * 2^j := Nat.mul_le_mul_right _ (by omega)
      _ = 7205759403792794 * (x.toNat * 2^j) := Nat.mul_assoc ..
  have hnonzero : 7205759403792794 * (x.toNat * 2^j) ≠ 0 := by
    have := Nat.two_pow_pos (56+j)
    omega
  exact ⟨(Nat.le_log2 hnonzero).mpr hle,(Nat.log2_lt hnonzero).mpr (by omega)⟩

/-- The first latency of some length counts in the median approximation with a tenth, and in the
next average with half of that. -/
theorem first_averages (hten : 10 ≤ x.toNat) (hlt : x.toNat < 2^53) :
    1 ≤ (newP50 0 x).toNat ∧ (newP95 0 x).toNat = (newP50 0 x).toNat / 2 := by
  have hx := normal_toFloat (by omega) hlt
  have hj : 52 - x.toNat.log2 ≤ 52 := Nat.sub_le ..
  generalize 52 - x.toNat.log2 = j at hx hj
  have hproduct := le_mul_of_normal alpha_normal hx
  obtain ⟨hone,hfew⟩ := weighted_log2 hten hx.most
  obtain ⟨hshift,hshift'⟩ := roundedShift_range hproduct
  have hbits := (roundedBits_range hproduct).1
  have hp50 := zero_add_normal old_part_p50 (normal_mul alpha_normal hx (by omega) (by omega))
  have hp95 := zero_add_normal old_part_p95 (normal_mul half_alpha_normal hx (by omega) (by omega))
  generalize 7205759403792794 * (x.toNat * 2^j) = product at *
  have hcut50 : (newP50 0 x).toNat = _ := toUInt64_normal hp50 (by omega)
  have hcut95 : (newP95 0 x).toNat = _ := toUInt64_normal hp95 (by omega)
  have hplaces : (-(-57 + -(j : Int) + roundedShift product)).toNat =
      (-(-56 + -(j : Int) + roundedShift product)).toNat + 1 := by omega
  have hwhole : (-(-56 + -(j : Int) + roundedShift product)).toNat ≤ 52 := by omega
  rw [hplaces,Nat.pow_succ,← Nat.div_div_eq_div_mul,← hcut50] at hcut95
  refine ⟨?_,hcut95⟩
  rw [hcut50]
  apply (Nat.le_div_iff_mul_le (Nat.two_pow_pos _)).mpr
  rw [Nat.one_mul]
  exact (Nat.pow_le_pow_right (by decide) hwhole).trans hbits

/-- A latency of less than ten leaves the averages at zero. -/
theorem short_averages (hlt : x.toNat < 10) : newP50 0 x = 0 ∧ newP95 0 x = 0 ∧ newP99 0 x = 0 := by
  have hall : ∀ n : Fin 10, newP50 0 (UInt64.ofNat n) = 0 ∧ newP95 0 (UInt64.ofNat n) = 0 ∧
      newP99 0 (UInt64.ofNat n) = 0 := by decide +kernel
  simpa using hall ⟨x.toNat,hlt⟩

end First

section Runs

/-- No latency has shown in the averages yet. -/
structure Flat (s : LatencyStats) : Prop where
  p50 : s.p50Ns = 0
  p95 : s.p95Ns = 0
  p99 : s.p99Ns = 0

variable {s : LatencyStats} {x : UInt64} {latencies : List UInt64}

theorem Flat.ordered (h : Flat s) : Ordered s := by
  unfold Ordered
  rw [h.p50,h.p95,h.p99]
  exact ⟨UInt64.le_refl _,UInt64.le_refl _,UInt64.zero_le⟩

theorem Flat.record (h : Flat s) (hlt : x.toNat < 10) : Flat (s.record x) := by
  obtain ⟨hp50,hp95,hp99⟩ := short_averages hlt
  obtain ⟨h50,h95,h99⟩ := h
  constructor
  all_goals unfold LatencyStats.record
  all_goals dsimp only
  all_goals split_ifs
  all_goals simp_all

/-- The first latency from ten on turns the order of the first two percentiles around. -/
theorem Flat.unordered (h : Flat s) (hten : 10 ≤ x.toNat) (hlt : x.toNat < 2^53) :
    ¬ Ordered (s.record x) := by
  obtain ⟨hone,hhalf⟩ := first_averages hten hlt
  have hlarger : x > s.p50Ns := by
    rw [h.p50]
    exact UInt64.lt_iff_toNat_lt.mpr (by simp; omega)
  have hp50 : (s.record x).p50Ns = newP50 0 x := by
    unfold LatencyStats.record
    dsimp only
    split_ifs <;> simp [h.p50]
  have hp95 : (s.record x).p95Ns = newP95 0 x := by
    unfold LatencyStats.record
    dsimp only
    split_ifs <;> simp_all [h.p95]
  intro hordered
  have hle := UInt64.le_iff_toNat_le.mp hordered.1
  rw [hp50,hp95] at hle
  omega

theorem snapshotAfter_concat :
    snapshotAfter (latencies ++ [x]) = (snapshotAfter latencies).record x := by
  simp [snapshotAfter]

theorem flat_after (h : ∀ x ∈ latencies, x.toNat < 10) : Flat (snapshotAfter latencies) := by
  induction latencies using List.reverseRecOn with
  | nil => exact ⟨rfl,rfl,rfl⟩
  | append_singleton latencies x ih =>
    rw [snapshotAfter_concat]
    have hbefore := ih (fun y hy => h y (List.mem_append_left _ hy))
    exact hbefore.record (h x (by simp))

/-- As long as the snapshots are in order there was no latency from ten on. -/
theorem short_of_ordered (hfits : ∀ x ∈ latencies, x.toNat < 2^53)
    (h : ∀ n, 0 < n → n ≤ latencies.length → Ordered (snapshotAfter (latencies.take n))) :
    ∀ x ∈ latencies, x.toNat < 10 := by
  induction latencies using List.reverseRecOn with
  | nil => simp
  | append_singleton latencies x ih =>
    have hbefore : ∀ y ∈ latencies, y.toNat < 10 := by
      apply ih (fun y hy => hfits y (List.mem_append_left _ hy))
      intro n hpos hn
      have hprefix := h n hpos (by simp; omega)
      rwa [List.take_append_of_le_length hn] at hprefix
    have hlast := h (latencies ++ [x]).length (by simp) (Nat.le_refl _)
    rw [List.take_length,snapshotAfter_concat] at hlast
    have hshort : x.toNat < 10 := by
      by_contra hten
      exact (flat_after hbefore).unordered (by omega) (hfits x (by simp)) hlast
    intro y hy
    rcases List.mem_append.mp hy with hy | hy
    · exact hbefore y hy
    · rwa [List.mem_singleton.mp hy]

end Runs

/-- The snapshots after a sequence of calls and after each beginning of it are in order exactly if
no latency reaches ten nanoseconds. -/
theorem percentiles_ordered_iff (latencies : List UInt64)
    (hfits : ∀ x ∈ latencies, x.toNat < 2^53) :
    (∀ n, 0 < n → n ≤ latencies.length → Ordered (snapshotAfter (latencies.take n))) ↔
      ∀ x ∈ latencies, x.toNat < 10 := by
  constructor
  · exact short_of_ordered hfits
  · intro hshort n _ _
    apply Flat.ordered
    apply flat_after
    exact fun x hx => hshort x (List.mem_of_mem_take hx)

theorem short_calls_ordered : (∀ x ∈ ([3,9] : List UInt64), x.toNat < 2^53) ∧
    ∀ n, 0 < n → n ≤ 2 → Ordered (snapshotAfter ([3,9].take n)) :=
  ⟨by simp,(percentiles_ordered_iff [3,9] (by simp)).mpr (by simp)⟩

/-- After one call of a microsecond the median approximation is twice the next percentile. -/
theorem one_call_unordered :
    (snapshotAfter [1000]).p50Ns = 100 ∧ (snapshotAfter [1000]).p95Ns = 50 ∧
    ¬ Ordered (snapshotAfter [1000]) := by
  decide +kernel

end SpreadArb.Proofs.Averages
