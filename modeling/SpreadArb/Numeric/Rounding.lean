import Mathlib.Algebra.Order.Field.Power
import Mathlib.Data.Int.Log
import Mathlib.Data.Rat.Floor
import Mathlib.Tactic.FieldSimp
import Mathlib.Tactic.Linarith
import Mathlib.Tactic.Positivity

namespace Numeric

section Integers

/-- The nearest integer, halfway cases to the even one. -/
def halfEven (x : ℚ) : ℤ :=
  if x - ⌊x⌋ < 1/2 then ⌊x⌋
  else if 1/2 < x - ⌊x⌋ then ⌊x⌋+1
  else if ⌊x⌋ % 2 = 0 then ⌊x⌋ else ⌊x⌋+1

@[simp] theorem halfEven_intCast (n : ℤ) : halfEven n = n := by
  simp [halfEven]

theorem abs_halfEven_sub_le (x : ℚ) : |(halfEven x : ℚ) - x| ≤ 1/2 := by
  have hlow := Int.floor_le x
  have hhigh := Int.lt_floor_add_one x
  unfold halfEven
  rw [abs_le]
  split
  · constructor
    · linarith
    · linarith
  · split
    · push_cast
      constructor
      · linarith
      · linarith
    · split
      · constructor
        · linarith
        · linarith
      · push_cast
        constructor
        · linarith
        · linarith

theorem halfEven_bounds (x : ℚ) : ⌊x⌋ ≤ halfEven x ∧ halfEven x ≤ ⌊x⌋ + 1 := by
  unfold halfEven
  split_ifs <;> omega

theorem halfEven_mono {x y : ℚ} (h : x ≤ y) : halfEven x ≤ halfEven y := by
  rcases (Int.floor_le_floor h).lt_or_eq with hlt | heq
  · have hx := (halfEven_bounds x).2
    have hy := (halfEven_bounds y).1
    omega
  · unfold halfEven
    rw [heq]
    split_ifs <;> first | omega | (exfalso; linarith)

theorem le_halfEven {n : ℤ} {x : ℚ} (h : n ≤ x) : n ≤ halfEven x := by
  rw [← halfEven_intCast n]
  exact halfEven_mono h

theorem halfEven_le {n : ℤ} {x : ℚ} (h : x ≤ n) : halfEven x ≤ n := by
  rw [← halfEven_intCast n]
  exact halfEven_mono h

theorem halfEven_neg (x : ℚ) : halfEven (-x) = -halfEven x := by
  by_cases hint : x = ⌊x⌋
  · rw [hint,← Int.cast_neg,halfEven_intCast,halfEven_intCast]
  · have hlow : (⌊x⌋ : ℚ) < x := lt_of_le_of_ne (Int.floor_le x) (Ne.symm hint)
    have hhigh := Int.lt_floor_add_one x
    have hfloor : ⌊-x⌋ = -⌊x⌋ - 1 := by
      refine Int.floor_eq_iff.mpr ⟨?_,?_⟩
      · push_cast
        linarith
      · push_cast
        linarith
    unfold halfEven
    rw [hfloor]
    push_cast
    split_ifs <;> first | omega | (exfalso; linarith)

end Integers

section Doubles

/-- Doubles of the size of `q` are multiples of the power of two with this exponent. -/
def unitExp (q : ℚ) : ℤ := max (Int.log 2 |q| - 52) (-1074)

/-- The nearest number of 53 bits, of two the even one. There is no largest exponent. -/
def rounded (q : ℚ) : ℚ := halfEven (q / 2 ^ unitExp q) * 2 ^ unitExp q

variable {a b q : ℚ}

theorem rounded_neg (q : ℚ) : rounded (-q) = -rounded q := by
  unfold rounded unitExp
  rw [abs_neg,neg_div,halfEven_neg]
  push_cast
  ring

@[simp] theorem rounded_zero : rounded 0 = 0 := by
  simp [rounded,halfEven]

theorem rounded_nonneg (h : 0 ≤ q) : 0 ≤ rounded q := by
  have hunit : (0 : ℚ) < 2 ^ unitExp q := by positivity
  have hquot : (0 : ℚ) ≤ q / 2 ^ unitExp q := by positivity
  have hnearest : 0 ≤ halfEven (q / 2 ^ unitExp q) := le_halfEven (by exact_mod_cast hquot)
  unfold rounded
  positivity

/-- A number has no more than 53 bits above its unit. -/
theorem lt_unit (q : ℚ) : |q| < 2 ^ (unitExp q + 53) := by
  have hlog : |q| < ((2 : ℕ) : ℚ) ^ (Int.log 2 |q| + 1) :=
    Int.lt_zpow_succ_log_self (by norm_num) |q|
  refine hlog.trans_le (zpow_le_zpow_right₀ (by norm_num) ?_)
  unfold unitExp
  omega

/-- It has 53 bits, unless it is very small. -/
theorem unit_le (hq : 0 < q) (h : -1074 < unitExp q) : 2 ^ (unitExp q + 52) ≤ q := by
  have hlog : ((2 : ℕ) : ℚ) ^ Int.log 2 q ≤ q := Int.zpow_log_le_self (by norm_num) hq
  have hexp : unitExp q + 52 = Int.log 2 q := by
    unfold unitExp at h ⊢
    rw [abs_of_pos hq] at h ⊢
    omega
  rw [hexp]
  exact hlog

theorem unitExp_mono (ha : 0 < a) (h : a ≤ b) : unitExp a ≤ unitExp b := by
  have hlog : Int.log 2 a ≤ Int.log 2 b := Int.log_mono_right ha h
  unfold unitExp
  rw [abs_of_pos ha,abs_of_pos (ha.trans_le h)]
  omega

theorem rounded_mono_pos (ha : 0 < a) (h : a ≤ b) : rounded a ≤ rounded b := by
  have hunit (e : ℤ) : (0 : ℚ) < 2 ^ e := by positivity
  rcases (unitExp_mono ha h).lt_or_eq with hlt | heq
  · -- the larger number is beyond all that the units of the smaller one reach
    have hsmall : halfEven (a / 2 ^ unitExp a) ≤ 2 ^ 53 := by
      have hlt := lt_unit a
      rw [abs_of_pos ha,zpow_add₀ (by norm_num)] at hlt
      apply halfEven_le
      rw [div_le_iff₀ (hunit _)]
      push_cast
      linarith
    have hlarge : 2 ^ 52 ≤ halfEven (b / 2 ^ unitExp b) := by
      have hlow : -1074 < unitExp b := lt_of_le_of_lt (le_max_right _ _) hlt
      have hge := unit_le (ha.trans_le h) hlow
      rw [zpow_add₀ (by norm_num)] at hge
      apply le_halfEven
      rw [le_div_iff₀ (hunit _)]
      push_cast
      linarith
    have hunits : (2 : ℚ) ^ (unitExp a + 53) ≤ 2 ^ (unitExp b + 52) :=
      zpow_le_zpow_right₀ (by norm_num) (by omega)
    rw [zpow_add₀ (by norm_num),zpow_add₀ (by norm_num)] at hunits
    calc rounded a ≤ 2 ^ 53 * 2 ^ unitExp a :=
          mul_le_mul_of_nonneg_right (by exact_mod_cast hsmall) (hunit _).le
      _ ≤ 2 ^ 52 * 2 ^ unitExp b := by
          norm_cast at hunits ⊢
          linarith
      _ ≤ rounded b := mul_le_mul_of_nonneg_right (by exact_mod_cast hlarge) (hunit _).le
  · unfold rounded
    rw [heq]
    refine mul_le_mul_of_nonneg_right ?_ (hunit _).le
    exact_mod_cast halfEven_mono (div_le_div_of_nonneg_right h (hunit _).le)

theorem rounded_mono (h : a ≤ b) : rounded a ≤ rounded b := by
  rcases lt_trichotomy a 0 with ha | rfl | ha
  · rcases lt_or_ge b 0 with hb | hb
    · have hneg := rounded_mono_pos (neg_pos.mpr hb) (neg_le_neg h)
      rw [rounded_neg,rounded_neg] at hneg
      exact neg_le_neg_iff.mp hneg
    · have hneg := rounded_nonneg (neg_pos.mpr ha).le
      rw [rounded_neg] at hneg
      have hpos := rounded_nonneg hb
      linarith
  · rw [rounded_zero]
    exact rounded_nonneg h
  · exact rounded_mono_pos ha h

/-- A number of fewer than 53 bits stays as it is. -/
theorem rounded_eq {n k : ℤ} (hn : |n| < 2 ^ 53) (hk : -1074 ≤ k) :
    rounded (n * 2 ^ k) = n * 2 ^ k := by
  by_cases hzero : n = 0
  · simp [hzero]
  have hexp : unitExp (n * 2 ^ k) ≤ k := by
    have hpos : (0 : ℚ) < |(n : ℚ) * 2 ^ k| := by positivity
    have hlt : |(n : ℚ) * 2 ^ k| < ((2 : ℕ) : ℚ) ^ (53 + k) := by
      have hpow : |(2 : ℚ) ^ k| = 2 ^ k := abs_of_pos (by positivity)
      have hbits : |(n : ℚ)| < 2 ^ 53 := by exact_mod_cast hn
      rw [abs_mul,hpow,Nat.cast_ofNat,zpow_add₀ (by norm_num)]
      exact mul_lt_mul_of_pos_right (by exact_mod_cast hbits) (by positivity)
    have hlog := (Int.lt_zpow_iff_log_lt (by norm_num) hpos).mp hlt
    unfold unitExp
    omega
  obtain ⟨d,hd⟩ := Int.le.dest hexp
  have hquot : (n * 2 ^ k : ℚ) / 2 ^ unitExp (n * 2 ^ k) = ((n * 2 ^ d : ℤ) : ℚ) := by
    rw [div_eq_iff (by positivity)]
    nth_rewrite 1 [← hd]
    rw [zpow_add₀ (by norm_num),zpow_natCast]
    push_cast
    ring
  unfold rounded
  rw [hquot,halfEven_intCast,← hquot]
  field_simp

/-- The relative error of rounding. -/
theorem rounded_close (h : 2 ^ (-1022 : ℤ) ≤ |q|) : |rounded q - q| ≤ |q| / 2 ^ 53 := by
  have hpos : 0 < |q| := lt_of_lt_of_le (by positivity) h
  have hlog : ((2 : ℕ) : ℚ) ^ Int.log 2 |q| ≤ |q| := Int.zpow_log_le_self (by norm_num) hpos
  have hexp : unitExp q = Int.log 2 |q| - 52 := by
    have hle : -1022 ≤ Int.log 2 |q| :=
      (Int.zpow_le_iff_le_log (by norm_num) hpos).mp (by exact_mod_cast h)
    unfold unitExp
    omega
  have hunit : (2 : ℚ) ^ unitExp q * 2 ^ 52 ≤ |q| := by
    rw [hexp,← zpow_natCast 2 52,← zpow_add₀ (by norm_num)]
    simpa using hlog
  have hu : (0 : ℚ) < 2 ^ unitExp q := by positivity
  have herror : rounded q - q =
      (halfEven (q / 2 ^ unitExp q) - q / 2 ^ unitExp q) * 2 ^ unitExp q := by
    unfold rounded
    field_simp
  rw [herror,abs_mul,abs_of_pos hu,le_div_iff₀ (by positivity)]
  have hhalf := abs_halfEven_sub_le (q / 2 ^ unitExp q)
  nlinarith

end Doubles

end Numeric
