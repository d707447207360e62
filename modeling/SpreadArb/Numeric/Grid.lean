import Mathlib.Algebra.Order.Floor.Ring
import Mathlib.Tactic.FieldSimp
import Mathlib.Tactic.Linarith

namespace Numeric.Grid

variable {K : Type} [Field K] [LinearOrder K] [IsStrictOrderedRing K] [FloorRing K]

/-- A multiple of the step. -/
def OnGrid (step x : K) : Prop := ∃ n : ℤ, x = n * step

/-- The largest multiple of the step up to `x`. -/
def floorTo (step x : K) : K := ⌊x / step⌋ * step

/-- The nearest integer, halfway cases away from zero. -/
def nearest (x : K) : ℤ := if 0 ≤ x then ⌊x + 1/2⌋ else ⌈x - 1/2⌉

/-- The nearest multiple of the step. -/
def roundTo (step x : K) : K := nearest (x / step) * step

section Floor

variable {step x c : K} (hstep : 0 < step)

include hstep

theorem floorTo_le : floorTo step x ≤ x := by
  have h := Int.floor_le (x / step)
  rwa [le_div_iff₀ hstep] at h

theorem lt_floorTo_add : x < floorTo step x + step := by
  have h := Int.lt_floor_add_one (x / step)
  rw [div_lt_iff₀ hstep,add_mul,one_mul] at h
  exact h

theorem le_floorTo (hc : OnGrid step c) (h : c ≤ x) : c ≤ floorTo step x := by
  obtain ⟨n,rfl⟩ := hc
  have hn : n ≤ ⌊x / step⌋ := by
    rw [Int.le_floor,le_div_iff₀ hstep]
    exact h
  exact mul_le_mul_of_nonneg_right (by exact_mod_cast hn) hstep.le

/-- A multiple less than a step below `x` is the largest one. -/
theorem floorTo_eq (hc : OnGrid step c) (h : c ≤ x) (hlt : x < c + step) : floorTo step x = c := by
  apply le_antisymm ?_ (le_floorTo hstep hc h)
  obtain ⟨n,rfl⟩ := hc
  have hn : ⌊x / step⌋ ≤ n := by
    rw [← Int.lt_add_one_iff,Int.floor_lt,div_lt_iff₀ hstep]
    push_cast
    linarith
  exact mul_le_mul_of_nonneg_right (by exact_mod_cast hn) hstep.le

/-- Rounding to the nearest multiple leaves the multiples as they are, and nothing else. -/
theorem roundTo_eq_iff : roundTo step x = x ↔ OnGrid step x := by
  constructor
  · intro h
    exact ⟨_,h.symm⟩
  · rintro ⟨n,rfl⟩
    have hnearest : nearest ((n : K) * step / step) = n := by
      rw [mul_div_cancel_right₀ _ hstep.ne']
      unfold nearest
      split
      · rw [Int.floor_eq_iff]
        constructor <;> linarith
      · rw [Int.ceil_eq_iff]
        constructor <;> linarith
    rw [roundTo,hnearest]

end Floor

section Nearest

theorem abs_nearest_sub_le (x : K) : |(nearest x : K) - x| ≤ 1/2 := by
  unfold nearest
  rw [abs_le]
  split
  · have hlow := Int.floor_le (x + 1/2)
    have hhigh := Int.lt_floor_add_one (x + 1/2)
    constructor
    · linarith
    · linarith
  · have hlow := Int.le_ceil (x - 1/2)
    have hhigh := Int.ceil_lt_add_one (x - 1/2)
    constructor
    · linarith
    · linarith

theorem nearest_nonneg {x : K} (h : 0 ≤ x) : 0 ≤ nearest x := by
  rw [nearest,if_pos h]
  exact Int.floor_nonneg.mpr (by linarith)

omit [IsStrictOrderedRing K] in
theorem roundTo_onGrid (step x : K) : OnGrid step (roundTo step x) := ⟨_,rfl⟩

theorem roundTo_nonneg {step x : K} (hstep : 0 < step) (h : 0 ≤ x) : 0 ≤ roundTo step x :=
  mul_nonneg (by exact_mod_cast nearest_nonneg (div_nonneg h hstep.le)) hstep.le

theorem OnGrid.eq_zero_or_le {step x : K} (hstep : 0 < step) (hx : OnGrid step x)
    (h : 0 ≤ x) : x = 0 ∨ step ≤ x := by
  obtain ⟨n,rfl⟩ := hx
  have hn : 0 ≤ n := by exact_mod_cast nonneg_of_mul_nonneg_left h hstep
  obtain rfl | hpos := hn.eq_or_lt
  · simp
  · right
    have hone : (1 : K) ≤ n := by exact_mod_cast hpos
    nlinarith

/-- The nearest multiple is at most half a step away. -/
theorem abs_roundTo_sub_le {step : K} (hstep : 0 < step) (x : K) :
    |roundTo step x - x| ≤ step / 2 := by
  have hclose := mul_le_mul_of_nonneg_right (abs_nearest_sub_le (x / step)) hstep.le
  have heq : roundTo step x - x = (nearest (x / step) - x / step) * step := by
    rw [roundTo,sub_mul,div_mul_cancel₀ _ hstep.ne']
  rw [heq,abs_mul,abs_of_pos hstep]
  linarith

end Nearest

/-- The smaller of the two largest multiples is a multiple of both steps exactly if `x` is less than
one of the larger steps above a common multiple. -/
theorem min_floorTo_onGrid_iff {a b x : K} (ha : 0 < a) (hb : 0 < b) :
    OnGrid a (min (floorTo a x) (floorTo b x)) ∧ OnGrid b (min (floorTo a x) (floorTo b x)) ↔
      ∃ c, OnGrid a c ∧ OnGrid b c ∧ c ≤ x ∧ x < c + max a b := by
  constructor
  · rintro ⟨hma,hmb⟩
    refine ⟨_,hma,hmb,(min_le_left _ _).trans (floorTo_le ha),?_⟩
    rcases min_choice (floorTo a x) (floorTo b x) with h | h <;> rw [h]
    · have := lt_floorTo_add (x := x) ha
      linarith [le_max_left a b]
    · have := lt_floorTo_add (x := x) hb
      linarith [le_max_right a b]
  · rintro ⟨c,hca,hcb,hle,hlt⟩
    have hmin : min (floorTo a x) (floorTo b x) = c := by
      rcases max_choice a b with h | h <;> rw [h] at hlt
      · rw [floorTo_eq ha hca hle hlt]
        exact min_eq_left (le_floorTo hb hcb hle)
      · rw [floorTo_eq hb hcb hle hlt]
        exact min_eq_right (le_floorTo ha hca hle)
    rw [hmin]
    exact ⟨hca,hcb⟩

end Numeric.Grid
